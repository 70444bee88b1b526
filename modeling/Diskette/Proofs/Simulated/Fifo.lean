import Diskette.Proofs.Calls
import Diskette.Proofs.Framing
import Diskette.Proofs.Simulated.Core

/-!
The data port of the simulated controller. A command goes in byte by byte until it is whole, or until a
fault stalls it; a result comes out as it was put there.
-/
namespace Diskette.Core

open Simulated

variable {α : Type} {k : Core} {base : UInt16} {m : Simulated}

/-- Goes back to commands, or has a result to give. -/
def answer (k : Core) (bytes : List UInt8) : Core := { k with fdc := k.fdc.answer bytes }

/-- Out of reset, with no part of a command taken. -/
structure Open (base : UInt16) (k : Core) : Prop extends At base k where
  outOfReset : k.fdc.inReset = false
  whole : k.fdc.partialCommand = []

structure Idle (base : UInt16) (k : Core) : Prop extends Open base k where
  command : k.fdc.stage = .command

theorem Open.same {k' : Core} (hopen : Open base k) (h : Same k k')
    (hwhole : k'.fdc.partialCommand = []) : Open base k' :=
  ⟨hopen.toAt.same h, h.inReset.trans hopen.outOfReset, hwhole⟩

theorem same_answer (k : Core) (bytes : List UInt8) : Same k (k.answer bytes) :=
  ⟨rfl, rfl, rfl, rfl, rfl, rfl, rfl, rfl⟩

theorem Open.answer (h : Open base k) (bytes : List UInt8) : Open base (k.answer bytes) :=
  h.same (same_answer k bytes) h.whole

theorem Open.idle (h : Open base k) : Idle base (k.answer []) := ⟨h.answer [], rfl⟩

theorem ensures_awaitReadyWithin (h : At base k) (looks : Nat) :
    (Fifo.awaitReadyWithin base (looks + 1)).Ensures surroundings
      (fun r k' => k' = k ∧ r = if k.status.dataReady then some k.status else none) k := by
  induction looks with
  | zero =>
    refine Program.ensures_bind.mpr ((ensures_readStatus h).mono ?_)
    rintro s _ ⟨rfl, rfl⟩
    split <;> exact ⟨rfl, rfl⟩
  | succ looks ih =>
    refine Program.ensures_bind.mpr ((ensures_readStatus h).mono ?_)
    rintro s _ ⟨rfl, rfl⟩
    split
    · exact ⟨rfl, rfl⟩
    · rename_i hready
      rwa [if_neg hready] at ih

theorem ready_of_canWrite {s : MainStatus} (h : s.canWrite) : s.dataReady := by
  refine byte_forall (P := fun b => MainStatus.canWrite ⟨b⟩ → MainStatus.dataReady ⟨b⟩) ?_
    s.bits h
  decide +kernel

theorem ready_of_canRead {s : MainStatus} (h : s.canRead) : s.dataReady := by
  refine byte_forall (P := fun b => MainStatus.canRead ⟨b⟩ → MainStatus.dataReady ⟨b⟩) ?_
    s.bits h
  decide +kernel

theorem ensures_asked {ready : MainStatus → Bool} (h : At base k)
    (hready : ∀ s, ready s → s.dataReady) :
    (do
      match ← Fifo.awaitReady base with
      | some status => return ready status
      | none => return false : Routine Bool).Ensures surroundings
      (fun r k' => k' = k ∧ r = ready k.status) k := by
  refine Program.ensures_bind.mpr ((ensures_awaitReadyWithin h 999).mono ?_)
  rintro s k' ⟨rfl, rfl⟩
  by_cases hdata : k'.status.dataReady
  · rw [if_pos hdata]
    exact ⟨rfl, rfl⟩
  · rw [if_neg hdata]
    exact ⟨rfl, (Bool.eq_false_iff.mpr fun h => hdata (hready _ h)).symm⟩

theorem ensures_writable (h : At base k) : (Fifo.writable base).Ensures surroundings
    (fun r k' => k' = k ∧ r = k.status.canWrite) k :=
  ensures_asked h fun _ => ready_of_canWrite

theorem ensures_readable (h : At base k) : (Fifo.readable base).Ensures surroundings
    (fun r k' => k' = k ∧ r = k.status.canRead) k :=
  ensures_asked h fun _ => ready_of_canRead

theorem ensures_awaitStatus (h : At base k) (ready : MainStatus → Bool) (ms : Nat) :
    (Fifo.awaitStatus base ready ms).Ensures surroundings
      (fun r k' => k' = k ∧ r = ready k.status) k := by
  have hfor : ∀ delays, (Fifo.awaitStatusFor base ready delays).Ensures surroundings
      (fun r k' => k' = k ∧ r = ready k.status) k := by
    intro delays
    induction delays with
    | zero =>
      refine Program.ensures_bind.mpr ((ensures_readStatus h).mono ?_)
      rintro s _ ⟨rfl, rfl⟩
      exact ⟨rfl, rfl⟩
    | succ delays ih =>
      refine Program.ensures_bind.mpr ((ensures_readStatus h).mono ?_)
      rintro s k' ⟨rfl, rfl⟩
      rw [Program.ensures_ite]
      split
      · rename_i hready
        exact ⟨rfl, hready.symm⟩
      · have hdelay : (Platform.delay 1).Only (Incidental k'.fdc.base) := .perform (by trivial)
        refine Program.ensures_bind.mpr ((ensures_incidental hdelay).mono ?_)
        rintro _ _ rfl
        exact ih
  exact hfor (ms - 1)

theorem ensures_uninterrupted {p : Routine α} {Q : α → Core → Prop}
    (h : p.Ensures surroundings Q k) :
    (Platform.uninterrupted p).Ensures surroundings Q k := by
  have hsuppress : Platform.suppress.Only (Incidental k.fdc.base) := .perform (by trivial)
  refine Program.ensures_bind.mpr ((ensures_incidental hsuppress).mono ?_)
  rintro wasEnabled _ rfl
  refine Program.ensures_bind.mpr (h.mono ?_)
  intro a k' hQ
  have hresume : (Platform.resume wasEnabled).Only (Incidental k'.fdc.base) := .perform (by trivial)
  refine Program.ensures_bind.mpr ((ensures_incidental hresume).mono ?_)
  rintro _ _ rfl
  exact hQ

/-- Part of a command has come. -/
def partway (k : Core) (bytes : List UInt8) : Core :=
  { k with fdc := { k.fdc with partialCommand := bytes } }

/-- A whole command has come, and is yet to be obeyed. -/
def took (k : Core) (bytes : List UInt8) : Core :=
  { k with fdc :=
    { k.fdc with partialCommand := [], commands := bytes.headD 0 :: k.fdc.commands } }

theorem same_partway (k : Core) (bytes : List UInt8) : Same k (k.partway bytes) :=
  ⟨rfl, rfl, rfl, rfl, rfl, rfl, rfl, rfl⟩

theorem same_took (k : Core) (bytes : List UInt8) : Same k (k.took bytes) :=
  ⟨rfl, rfl, rfl, rfl, rfl, rfl, rfl, rfl⟩

theorem Idle.took (h : Idle base k) (bytes : List UInt8) : Open base (k.took bytes) :=
  h.toOpen.same (same_took k bytes) rfl

/-- What sending a command comes to. -/
inductive Sent (k : Core) (bytes : List UInt8) : Except Failure Unit → Core → Prop
  | obeyed (m : Simulated) : m.core = k.took bytes →
    Sent k bytes (.ok ()) (m.obey (.ofBytes bytes)).core
  | stalled (cause : Failure) (limit : Nat) : k.faults.commandLimit = some limit →
    limit < bytes.length → Sent k bytes (.error cause) (k.partway (bytes.take limit))

theorem canWrite_status (hreset : k.fdc.inReset = false) (hstage : k.fdc.stage = .command) :
    k.status.canWrite = true ↔ k.faults.commandLimit ≠ some k.fdc.partialCommand.length := by
  unfold status Fdc.status
  rw [hreset, hstage]
  by_cases hlimit : k.faults.commandLimit = some k.fdc.partialCommand.length
  · simp +decide [hlimit]
  · simp only [hlimit, ↓reduceIte, Bool.false_eq_true]
    split <;> simp +decide [hlimit]

theorem acceptByte_command (hreset : m.fdc.inReset = false) (hstage : m.fdc.stage = .command)
    (hlimit : m.faults.commandLimit ≠ some m.fdc.partialCommand.length) (b : UInt8) :
    m.acceptByte b = m.takeCommandByte b := by
  have hwrite : m.core.status.canWrite = true := (canWrite_status hreset hstage).mpr hlimit
  have hready : m.fdc.status m.faults &&& 0x80 ≠ 0 := by
    simpa [MainStatus.dataReady, status, Simulated.core] using ready_of_canWrite hwrite
  unfold acceptByte
  rw [if_neg hready, hstage]

theorem sent_takeCommandByte {b : UInt8} (hlength : (m.fdc.partialCommand ++ [b]).length =
    Order.length ((m.fdc.partialCommand ++ [b]).headD 0)) :
    Sent m.core (m.fdc.partialCommand ++ [b]) (.ok ()) (m.takeCommandByte b).core := by
  dsimp only [takeCommandByte]
  rw [if_pos hlength]
  exact .obeyed _ rfl

theorem core_takeCommandByte {b : UInt8} (hlength : (m.fdc.partialCommand ++ [b]).length ≠
    Order.length ((m.fdc.partialCommand ++ [b]).headD 0)) :
    (m.takeCommandByte b).core = m.core.partway (m.fdc.partialCommand ++ [b]) := by
  dsimp only [takeCommandByte]
  rw [if_neg hlength]
  rfl

theorem Sent.of_partway {bytes taken : List UInt8} {r : Except Failure Unit} {k' : Core}
    (h : Sent (k.partway taken) bytes r k') : Sent k bytes r k' := by
  cases h with
  | obeyed m hm => exact .obeyed m hm
  | stalled cause limit hlimit hlt => exact .stalled cause limit hlimit hlt

theorem ensures_sendFrom (h : At base k) (hreset : k.fdc.inReset = false)
    (hstage : k.fdc.stage = .command) {bytes : List UInt8} (hbytes : bytes ≠ [])
    (hlength : (k.fdc.partialCommand ++ bytes).length =
      Order.length ((k.fdc.partialCommand ++ bytes).headD 0)) (total sent : Nat) :
    (Fifo.sendFrom base total bytes sent).Ensures surroundings
      (Sent k (k.fdc.partialCommand ++ bytes)) k := by
  induction bytes generalizing k sent with
  | nil => exact absurd rfl hbytes
  | cons b rest ih =>
    refine Program.ensures_bind.mpr ((ensures_writable h).mono ?_)
    rintro w k' ⟨rfl, rfl⟩
    rw [Program.ensures_ite]
    split
    case isFalse hstalled =>
      have hlimit : k'.faults.commandLimit = some k'.fdc.partialCommand.length :=
        Decidable.byContradiction fun hlimit =>
          hstalled ((canWrite_status hreset hstage).mpr hlimit)
      have hlt : k'.fdc.partialCommand.length < (k'.fdc.partialCommand ++ b :: rest).length := by simp
      have hstall := Sent.stalled (.writeTimeout sent total) _ hlimit hlt
      rwa [List.take_left] at hstall
    case isTrue hwrite =>
      have hlimit := (canWrite_status hreset hstage).mp hwrite
      refine Program.ensures_bind.mpr ((ensures_acceptByte h b).mono ?_)
      rintro _ _ ⟨m, rfl, rfl⟩
      rw [acceptByte_command hreset hstage hlimit]
      cases rest with
      | nil => exact sent_takeCommandByte hlength
      | cons b' rest =>
        have hmore : (m.fdc.partialCommand ++ [b]).length ≠ Order.length ((m.fdc.partialCommand ++ [b]).headD 0) :=
          Order.length_ne_of_more hlength
        rw [core_takeCommandByte hmore]
        rw [List.append_cons] at hlength ⊢
        have hrest := ih (k := m.core.partway (m.fdc.partialCommand ++ [b])) (h.same (same_partway _ _)) hreset hstage
          (by simp) hlength (sent + 1)
        exact Program.Ensures.mono hrest fun _ _ => Sent.of_partway

theorem ensures_send (h : Idle base k) {bytes : List UInt8} (hbytes : bytes ≠ [])
    (hlength : bytes.length = Order.length (bytes.headD 0)) :
    (Fifo.send base bytes).Ensures surroundings (Sent k bytes) k := by
  have hsend := ensures_sendFrom h.toAt h.outOfReset h.command hbytes
    (by rw [h.whole]; exact hlength) bytes.length 0
  rwa [h.whole] at hsend

theorem status_answer_cons (hreset : k.fdc.inReset = false)
    (hgive : k.faults.withholdResults = false) (b : UInt8) (bytes : List UInt8) :
    (k.answer (b :: bytes)).status = ⟨0xD0⟩ := by
  change (⟨if k.fdc.inReset then 0x00 else if k.faults.withholdResults then 0x10 else 0xD0⟩ :
    MainStatus) = _
  rw [hreset, hgive]
  rfl

theorem not_canRead_answer_nil (hreset : k.fdc.inReset = false) :
    (k.answer []).status.canRead = false := by
  change MainStatus.canRead ⟨if k.fdc.inReset then 0x00
    else if k.faults.commandLimit = some k.fdc.partialCommand.length then 0x10
    else if k.fdc.partialCommand.isEmpty then 0x80 else 0x90⟩ = false
  rw [hreset]
  repeat' split
  all_goals decide

theorem giveByte_answer {b : UInt8} {bytes : List UInt8} (hm : m.core = k.answer (b :: bytes))
    (hreset : k.fdc.inReset = false) (hgive : k.faults.withholdResults = false) :
    m.giveByte.1 = b ∧ m.giveByte.2.core = k.answer bytes := by
  have hstatus : m.core.status = ⟨0xD0⟩ := by
    rw [hm]
    exact status_answer_cons hreset hgive b bytes
  have hready : ¬ m.fdc.status m.faults &&& 0xC0 ≠ 0xC0 := by
    have hbits : m.fdc.status m.faults = 0xD0 := congrArg MainStatus.bits hstatus
    rw [hbits]
    decide
  have hfdc : m.fdc = k.fdc.answer (b :: bytes) := congrArg Core.fdc hm
  have hanswer : ∀ l, (m.answer l).core = k.answer l := by
    intro l
    change m.core.answer l = k.answer l
    rw [hm]
    rfl
  unfold giveByte
  rw [if_neg hready, hfdc]
  exact ⟨rfl, hanswer bytes⟩

theorem ensures_collect (h : At base k) (hreset : k.fdc.inReset = false)
    {bytes : List UInt8} {most : Nat}
    (hgive : bytes ≠ [] → k.faults.withholdResults = false) (hmost : bytes.length ≤ most) :
    (Fifo.collect base most).Ensures surroundings
      (fun r k' => r.val = bytes ∧ k' = k.answer []) (k.answer bytes) := by
  induction bytes generalizing most with
  | nil =>
    cases most with
    | zero => exact ⟨rfl, rfl⟩
    | succ most =>
      refine Program.ensures_bind.mpr ((ensures_readable (h.same (same_answer k []))).mono ?_)
      rintro r k' ⟨rfl, rfl⟩
      rw [not_canRead_answer_nil hreset]
      exact ⟨rfl, rfl⟩
  | cons b bytes ih =>
    cases most with
    | zero => exact absurd hmost (by simp)
    | succ most =>
      have hgiven : k.faults.withholdResults = false := hgive (by simp)
      have hat : At base (k.answer (b :: bytes)) := h.same (same_answer k _)
      refine Program.ensures_bind.mpr ((ensures_readable hat).mono ?_)
      rintro r k' ⟨rfl, rfl⟩
      rw [status_answer_cons hreset hgiven]
      refine Program.ensures_bind.mpr ((ensures_giveByte hat).mono ?_)
      rintro r k' ⟨m, hm, rfl, rfl⟩
      obtain ⟨hb, hrest⟩ := giveByte_answer hm hreset hgiven
      rw [hrest]
      refine Program.ensures_bind.mpr ((ih (fun _ => hgiven) (Nat.le_of_succ_le_succ hmost)).mono ?_)
      rintro ⟨rest, hbound⟩ k' ⟨rfl, rfl⟩
      exact ⟨by rw [hb], rfl⟩

/-- Every byte of a result that is long enough. -/
theorem ensures_receive {n : ResultLength} (h : At base k) (hreset : k.fdc.inReset = false)
    {bytes : List UInt8} (hgive : bytes ≠ [] → k.faults.withholdResults = false)
    (hfewest : n.fewest ≤ bytes.length) (hmost : bytes.length ≤ min n.most maxResult) :
    (Fifo.receive base n).Ensures surroundings (fun r k' =>
      (∃ result, r = .ok result ∧ result.toList = bytes) ∧ k' = k.answer []) (k.answer bytes) := by
  refine Program.ensures_bind.mpr ((ensures_collect h hreset hgive hmost).mono ?_)
  rintro ⟨bytes, hbound⟩ k' ⟨rfl, rfl⟩
  dsimp only
  rw [dif_pos hfewest]
  exact ⟨⟨_, rfl, rfl⟩, rfl⟩

theorem Idle.status (h : Idle base k) (hlimit : k.faults.commandLimit ≠ some 0) :
    k.status = ⟨0x80⟩ := by
  unfold Core.status Fdc.status
  rw [h.outOfReset, h.command, h.whole]
  simp [hlimit]

theorem ensures_finish (h : Idle base k) (hlimit : k.faults.commandLimit ≠ some 0) :
    (Fifo.finish base).Ensures surroundings (fun r k' => r = .ok () ∧ k' = k) k := by
  refine Program.ensures_bind.mpr ((ensures_awaitReadyWithin h.toAt 19).mono ?_)
  rintro _ k' ⟨rfl, -⟩
  refine Program.ensures_bind.mpr ((ensures_awaitStatus h.toAt _ _).mono ?_)
  rintro r k'' ⟨rfl, rfl⟩
  rw [h.status hlimit]
  exact ⟨rfl, rfl⟩

theorem dataReady_answer {bytes : List UInt8} (h : Open base k)
    (hgive : bytes ≠ [] → k.faults.withholdResults = false)
    (hlimit : k.faults.commandLimit ≠ some 0) : (k.answer bytes).status.dataReady = true := by
  cases bytes with
  | nil =>
    rw [h.idle.status hlimit]
    rfl
  | cons b bytes =>
    rw [status_answer_cons h.outOfReset (hgive (by simp))]
    rfl

theorem dataReady_withheld {bytes : List UInt8} (h : Open base k) (hbytes : bytes ≠ [])
    (hgive : k.faults.withholdResults = true) : (k.answer bytes).status.dataReady = false := by
  obtain ⟨b, rest, rfl⟩ := List.exists_cons_of_ne_nil hbytes
  change MainStatus.dataReady ⟨if k.fdc.inReset then 0x00
    else if k.faults.withholdResults then 0x10 else 0xD0⟩ = false
  rw [h.outOfReset, hgive]
  rfl

theorem ensures_awaitResult (h : At base k) : (Fifo.awaitResult base).Ensures surroundings
    (fun r k' => k' = k ∧ r = if k.status.dataReady then .ok () else .error .resultTimeout) k := by
  refine Program.ensures_bind.mpr ((ensures_awaitStatus h _ _).mono ?_)
  rintro r k' ⟨rfl, rfl⟩
  split <;> exact ⟨rfl, rfl⟩

/-- An answer is waited for until it can be read, unless it is withheld. -/
theorem ensures_awaitAnswer {bytes : List UInt8} {n : ResultLength} (h : Open base k)
    (hlimit : k.faults.commandLimit ≠ some 0) (hmost : bytes.length ≤ n.most) :
    (Fifo.awaitAnswer base n).Ensures surroundings (fun r k' => k' = k.answer bytes ∧
      match r with
      | .ok () => bytes ≠ [] → k.faults.withholdResults = false
      | .error _ => bytes ≠ [] ∧ k.faults.withholdResults = true) (k.answer bytes) := by
  unfold Fifo.awaitAnswer
  split
  · apply (ensures_awaitResult (h.answer bytes).toAt).mono
    rintro r k' ⟨rfl, rfl⟩
    by_cases hgive : bytes ≠ [] ∧ k.faults.withholdResults = true
    · rw [dataReady_withheld h hgive.1 hgive.2]
      exact ⟨rfl, hgive⟩
    · have hgiven : bytes ≠ [] → k.faults.withholdResults = false := by simpa using hgive
      rw [dataReady_answer h hgiven hlimit]
      exact ⟨rfl, hgiven⟩
  · rename_i hnone
    have hbytes : bytes = [] := List.length_eq_zero_iff.mp (by omega)
    exact ⟨rfl, fun hne => absurd hbytes hne⟩

/-- What a command that does not interrupt comes to; `k₁` is the controller with the command obeyed. -/
inductive Transacted {n : ResultLength} (k k₁ : Core) (bytes answer : List UInt8) :
    Except Failure (ResultBytes n) → Core → Prop
  | answered (result : ResultBytes n) : result.toList = answer →
    Transacted k k₁ bytes answer (.ok result) (k₁.answer [])
  | stalled (cause : Failure) (limit : Nat) : k.faults.commandLimit = some limit →
    limit < bytes.length → Transacted k k₁ bytes answer (.error cause) (k.partway (bytes.take limit))
  | withheld (cause : Failure) : k.faults.withholdResults = true → answer ≠ [] →
    Transacted k k₁ bytes answer (.error cause) (k₁.answer answer)

theorem ensures_transact {n : ResultLength} {bytes bs : List UInt8} {k₁ : Core} (h : Idle base k)
    (hlimit : k.faults.commandLimit ≠ some 0) (hbytes : bytes ≠ [])
    (hlength : bytes.length = Order.length (bytes.headD 0))
    (hobey : ∀ m : Simulated, m.core = k.took bytes →
      (m.obey (.ofBytes bytes)).core = k₁.answer bs)
    (hopen : Open base k₁) (hfaults : k₁.faults = k.faults) (hfewest : n.fewest ≤ bs.length)
    (hmost : bs.length ≤ min n.most maxResult) :
    (Fifo.transact base bytes n).Ensures surroundings (Transacted k k₁ bytes bs) k := by
  refine Program.ensures_run_bind.mpr ((ensures_uninterrupted (ensures_send h hbytes hlength)).mono ?_)
  intro r k' hsent
  cases hsent with
  | stalled cause limit hstall hlt => exact .stalled cause limit hstall hlt
  | obeyed m hm =>
    rw [hobey m hm]
    have hlimit₁ : k₁.faults.commandLimit ≠ some 0 := hfaults ▸ hlimit
    refine Program.ensures_run_bind.mpr ((ensures_awaitAnswer (n := n) hopen hlimit₁ (by omega)).mono ?_)
    rintro (cause | _) k' ⟨rfl, hgive⟩
    · exact .withheld cause (hfaults ▸ hgive.2) hgive.1
    · have hreceive := ensures_receive hopen.toAt hopen.outOfReset hgive hfewest hmost
      refine Program.ensures_run_bind.mpr ((ensures_uninterrupted hreceive).mono ?_)
      rintro r k' ⟨⟨result, rfl, hresult⟩, rfl⟩
      refine Program.ensures_run_bind.mpr ((ensures_finish hopen.idle hlimit₁).mono ?_)
      rintro r k' ⟨rfl, rfl⟩
      exact .answered result hresult

end Diskette.Core
