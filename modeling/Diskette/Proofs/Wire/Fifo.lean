import Diskette.Proofs.Calls
import Diskette.Proofs.Wire.Basic

/-!
The routines on the data port, heard on the wire: each byte comes right after a status that asks for
it, no window is left open, and a command that is sent says what payload is due.
-/
namespace Diskette.Wire

open Simulated (Order)

variable {base : UInt16} {α : Type} {w : Wire}

theorem quiet_of_looks {c : Platform.Call} (h : Fifo.Looks base c) : Quiet base c := by
  cases c with
  | input port =>
    intro hport
    exact mainStatus_ne_data ((show port = Port.mainStatus base from h) ▸ hport)
  | delay ms => trivial
  | _ => exact h.elim

theorem quiet_mainStatus : Quiet base (.input (Port.mainStatus base)) := mainStatus_ne_data

/-- A read of the status is heard. -/
theorem ensures_readStatus (w : Wire) : (Fifo.readStatus base).Ensures (tapped base)
    (fun status w' => Still w w' ∧ w'.status = some status) w := by
  refine ⟨permits_of_quiet quiet_mainStatus, ?_⟩
  rintro byte w' rfl
  refine ⟨still_of_quiet quiet_mainStatus byte, ?_⟩
  simp [listener, hear]

theorem ensures_awaitReadyWithin (looks : Nat) (w : Wire) :
    (Fifo.awaitReadyWithin base looks).Ensures (tapped base)
      (fun r w' => Still w w' ∧ ∀ status ∈ r, w'.status = some status) w := by
  induction looks generalizing w with
  | zero => exact ⟨Still.refl, by simp⟩
  | succ looks ih =>
    refine Program.ensures_bind.mpr ((ensures_readStatus w).mono ?_)
    rintro status w' ⟨hstill, hstatus⟩
    rw [Program.ensures_ite]
    split
    · exact ⟨hstill, by simpa using hstatus⟩
    · apply (ih w').mono
      rintro r w'' ⟨hstill', hr⟩
      exact ⟨hstill.trans hstill', hr⟩

theorem ensures_writable (w : Wire) : (Fifo.writable base).Ensures (tapped base)
    (fun r w' => Still w w' ∧ (r → ∃ status, w'.status = some status ∧ status.canWrite)) w := by
  refine Program.ensures_bind.mpr ((ensures_awaitReadyWithin _ w).mono ?_)
  rintro (_ | status) w' ⟨hstill, hstatus⟩
  · exact ⟨hstill, by simp⟩
  · exact ⟨hstill, fun h => ⟨status, hstatus status rfl, h⟩⟩

theorem ensures_readable (w : Wire) : (Fifo.readable base).Ensures (tapped base)
    (fun r w' => Still w w' ∧ (r → ∃ status, w'.status = some status ∧ status.canRead)) w := by
  refine Program.ensures_bind.mpr ((ensures_awaitReadyWithin _ w).mono ?_)
  rintro (_ | status) w' ⟨hstill, hstatus⟩
  · exact ⟨hstill, by simp⟩
  · exact ⟨hstill, fun h => ⟨status, hstatus status rfl, h⟩⟩

theorem ensures_awaitStatusFor (ready : MainStatus → Bool) (delays : Nat) (w : Wire) :
    (Fifo.awaitStatusFor base ready delays).Ensures (tapped base)
      (fun r w' => Still w w' ∧ (r → ∃ status, w'.status = some status ∧ ready status)) w := by
  induction delays generalizing w with
  | zero =>
    refine Program.ensures_bind.mpr ((ensures_readStatus w).mono ?_)
    rintro status w' ⟨hstill, hstatus⟩
    exact ⟨hstill, fun h => ⟨status, hstatus, h⟩⟩
  | succ delays ih =>
    refine Program.ensures_bind.mpr ((ensures_readStatus w).mono ?_)
    rintro status w' ⟨hstill, hstatus⟩
    rw [Program.ensures_ite]
    split
    · exact ⟨hstill, fun _ => ⟨status, hstatus, ‹_›⟩⟩
    · refine ⟨trivial, ?_⟩
      rintro - w'' rfl
      apply (ih _).mono
      rintro r v ⟨hstill', hr⟩
      have hdelay : Quiet base (.delay 1) := trivial
      exact ⟨hstill.trans ((still_of_quiet hdelay ()).trans hstill'), hr⟩

/-- A payload byte may go at the end of a wait for it that was not in vain. -/
theorem ensures_payloadReady (ready : MainStatus → Bool) (ms : Nat) (w : Wire) :
    (Fifo.payloadReady base ready ms).Ensures (tapped base)
      (fun r w' => Still w w' ∧ (r → ∃ status, w'.status = some status ∧ ready status)) w := by
  refine Program.ensures_bind.mpr ((ensures_awaitReadyWithin _ w).mono ?_)
  rintro (_ | status) w' ⟨hstill, -⟩
  · exact ⟨hstill, by simp⟩
  · apply (ensures_awaitStatusFor ready (ms - 1) w').mono
    rintro r w'' ⟨hstill', hr⟩
    exact ⟨hstill.trans hstill', hr⟩

theorem Paced.of_still {w' : Wire} {ready payloadReady : MainStatus → Bool} (hstill : Still w w')
    (hw : w.windows ≠ []) (hdue : w.due = 0)
    (hready : ∃ status, w'.status = some status ∧ ready status) : w'.Paced ready payloadReady := by
  obtain ⟨status, hstatus, hready⟩ := hready
  refine ⟨hstill.windows ▸ hw, status, hstatus, hready, ?_⟩
  intro h
  exact (h (hstill.due.trans hdue)).elim

theorem ensures_output {b : UInt8} (h : w.Paced MainStatus.canWrite MainStatus.canWritePayload) :
    (Platform.output (Port.data base) b).Ensures (tapped base)
      (fun _ w' => w' = { w.put b with status := none }) w := by
  refine ⟨fun _ => h, ?_⟩
  rintro - w' rfl
  simp [listener, hear]

theorem ensures_input (h : w.Paced MainStatus.canRead MainStatus.canReadPayload) :
    (Platform.input (Port.data base)).Ensures (tapped base)
      (fun _ w' => w' = { w with status := none, due := w.due - 1 }) w := by
  refine ⟨fun _ => h, ?_⟩
  rintro byte w' rfl
  simp [listener, hear, mainStatus_ne_data.symm]

/-- A byte of a command that is not its last one. -/
theorem put_part {b b' : UInt8} {rest : List UInt8} (hdue : w.due = 0)
    (hwhole : (w.command ++ b :: b' :: rest).length = Order.length ((w.command ++ b :: b' :: rest).headD 0)) :
    w.put b = { w with command := w.command ++ [b], due := 0 } := by
  have hpart := Order.length_ne_of_more hwhole
  simp only [put, hdue, hpart, false_and, if_true, if_false]

/-- The rest of a command goes out. What is due at the end is the payload of the whole command,
unless a channel has been set up for it; a command that breaks off leaves nothing due. -/
theorem ensures_sendFrom (total : Nat) (bytes : List UInt8) (sent : Nat) (w : Wire)
    (hne : bytes ≠ []) (hw : w.windows ≠ []) (hdue : w.due = 0)
    (hwhole : (w.command ++ bytes).length = Order.length ((w.command ++ bytes).headD 0)) :
    (Fifo.sendFrom base total bytes sent).Ensures (tapped base)
      (fun r w' => w'.windows = w.windows ∧ match r with
        | .ok _ => w'.due = if w.loaded then 0 else (Order.ofBytes (w.command ++ bytes)).payload
        | .error _ => w'.due = 0) w := by
  induction bytes generalizing w sent with
  | nil => exact (hne rfl).elim
  | cons b rest ih =>
    refine Program.ensures_bind.mpr ((ensures_writable w).mono ?_)
    rintro r w₁ ⟨hstill, hr⟩
    rw [Program.ensures_ite]
    split
    case isFalse => exact ⟨hstill.windows, hstill.due.trans hdue⟩
    case isTrue hready =>
      have hpaced : w₁.Paced MainStatus.canWrite MainStatus.canWritePayload :=
        .of_still hstill hw hdue (hr hready)
      refine Program.ensures_bind.mpr ((ensures_output hpaced).mono ?_)
      rintro - w₂ rfl
      have hcommand : w₁.command = w.command := hstill.command
      have hloaded : w₁.loaded = w.loaded := hstill.loaded
      have hdue₁ : w₁.due = 0 := hstill.due.trans hdue
      cases rest with
      | nil =>
        refine ⟨?_, ?_⟩
        · simp [put, hdue₁, hstill.windows]
        · cases hl : w.loaded <;> simp [put, hdue₁, hcommand, hloaded, hl, hwhole]
      | cons b' rest =>
        have hput : w₁.put b = { w₁ with command := w.command ++ [b], due := 0 } := by
          rw [← hcommand] at hwhole ⊢
          exact put_part hdue₁ hwhole
        rw [hput]
        refine (ih (sent + 1) _ (by simp) (hstill.windows ▸ hw) rfl ?_).mono ?_
        · simpa using hwhole
        · rintro r w' ⟨hwindows, hr⟩
          refine ⟨hwindows.trans hstill.windows, ?_⟩
          simpa [hloaded] using hr

theorem ensures_collect (most : Nat) (w : Wire) (hw : w.windows ≠ []) (hdue : w.due = 0) :
    (Fifo.collect base most).Ensures (tapped base)
      (fun _ w' => w'.windows = w.windows ∧ w'.due = 0) w := by
  induction most generalizing w with
  | zero => exact ⟨rfl, hdue⟩
  | succ most ih =>
    refine Program.ensures_bind.mpr ((ensures_readable w).mono ?_)
    rintro r w₁ ⟨hstill, hr⟩
    rw [Program.ensures_ite]
    split
    case isFalse => exact ⟨hstill.windows, hstill.due.trans hdue⟩
    case isTrue hready =>
      have hpaced : w₁.Paced MainStatus.canRead MainStatus.canReadPayload :=
        .of_still hstill hw hdue (hr hready)
      refine Program.ensures_bind.mpr ((ensures_input hpaced).mono ?_)
      rintro b w₂ rfl
      have hdue₁ : w₁.due - 1 = 0 := by rw [hstill.due, hdue]
      refine Program.ensures_bind.mpr ((ih _ (hstill.windows ▸ hw) hdue₁).mono ?_)
      rintro ⟨rest, -⟩ w' ⟨hwindows, hdue'⟩
      exact ⟨hwindows.trans hstill.windows, hdue'⟩

/-- A window is closed with what was answered when it was opened. -/
theorem ensures_uninterrupted {p : Routine α} {Q : α → Wire → Prop}
    (h : ∀ b, p.Ensures (tapped base) (fun a w' => w'.windows = b :: w.windows ∧
      Q a { w' with windows := w.windows, status := none }) (w.enter b)) :
    (Platform.uninterrupted p).Ensures (tapped base) Q w := by
  refine ⟨trivial, ?_⟩
  rintro b w₁ rfl
  refine (Program.ensures_bind (p := p)).mpr ((h b).mono ?_)
  rintro a w₂ ⟨hwindows, hQ⟩
  refine ⟨?_, ?_⟩
  · change w₂.windows.head? = some b
    rw [hwindows]
    rfl
  · rintro - w₃ rfl
    have htail : w₂.windows.tail = w.windows := by rw [hwindows]; rfl
    change Q a (w₂.hear base (.resume b) ())
    simpa only [hear, htail] using hQ

/-- The same windows are open, and nothing is due. -/
structure Rests (windows : List Bool) (w : Wire) : Prop where
  windows : w.windows = windows
  due : w.due = 0

theorem Rests.of_still {windows : List Bool} {w' : Wire} (h : Rests windows w)
    (hstill : Still w w') : Rests windows w' :=
  ⟨hstill.windows.trans h.windows, hstill.due.trans h.due⟩

variable {windows : List Bool}

theorem rests_quiet {p : Routine α} (hp : p.Only (Quiet base)) (h : Rests windows w) :
    p.Ensures (tapped base) (fun _ => Rests windows) w :=
  (ensures_still hp w).mono fun _ _ hstill => h.of_still hstill

theorem rests_looks {p : Routine α} (hp : p.Only (Fifo.Looks base)) (h : Rests windows w) :
    p.Ensures (tapped base) (fun _ => Rests windows) w :=
  rests_quiet (hp.mono fun _ => quiet_of_looks) h

/-- The bytes are as many as the controller expects from the first of them. -/
def Framed (bytes : List UInt8) : Prop :=
  bytes ≠ [] ∧ bytes.length = Order.length (bytes.headD 0)

theorem framed_bytes (command : Command) (drive : Drive) (recording : RecordingMode) :
    Framed (command.bytes drive recording) := by
  refine ⟨?_, command.length_bytes drive recording⟩
  cases command <;> simp [Command.bytes, Command.dataBytes]

/-- What is due once a command is out. -/
theorem ensures_send {bytes : List UInt8} (hframed : Framed bytes) (hw : w.windows ≠ [])
    (hdue : w.due = 0) (hcommand : w.command = []) :
    (Fifo.send base bytes).Ensures (tapped base)
      (fun r w' => w'.windows = w.windows ∧ match r with
        | .ok _ => w'.due = if w.loaded then 0 else (Order.ofBytes bytes).payload
        | .error _ => w'.due = 0) w := by
  have hsend : _ → (Fifo.sendFrom base bytes.length bytes 0).Ensures (tapped base) _ w :=
    ensures_sendFrom bytes.length bytes 0 w hframed.1 hw hdue
  simp only [hcommand, List.nil_append] at hsend
  exact hsend hframed.2

theorem rests_receive (n : ResultLength) (h : Rests windows w) :
    (Platform.uninterrupted (Fifo.receive base n)).Ensures (tapped base)
      (fun _ => Rests windows) w := by
  refine ensures_uninterrupted fun b => ?_
  have hcollect : (Fifo.collect base (min n.most maxResult)).Ensures (tapped base) _ (w.enter b) :=
    ensures_collect _ (w.enter b) (List.cons_ne_nil _ _) h.due
  refine Program.ensures_bind.mpr (hcollect.mono ?_)
  rintro ⟨bytes, bound⟩ w' ⟨hwindows, hdue⟩
  exact ⟨hwindows, h.windows, hdue⟩

/-- A command without a payload, from its first byte to the end of its result. -/
theorem rests_transact {bytes : List UInt8} (n : ResultLength) (hframed : Framed bytes)
    (hpayload : (Order.ofBytes bytes).payload = 0) (h : Rests windows w) :
    (Fifo.transact base bytes n).Ensures (tapped base) (fun _ => Rests windows) w := by
  have hsend : (Platform.uninterrupted (Fifo.send base bytes)).Ensures (tapped base)
      (fun _ => Rests windows) w := by
    refine ensures_uninterrupted fun b => ?_
    apply (ensures_send (w := w.enter b) hframed (List.cons_ne_nil _ _) h.due rfl).mono
    rintro r w' ⟨hwindows, hr⟩
    refine ⟨hwindows, h.windows, ?_⟩
    cases r with
    | ok _ => simpa [hpayload] using hr
    | error _ => exact hr
  refine Program.ensures_run_bind.mpr (hsend.mono ?_)
  rintro (_ | _) w₁ h₁
  · exact h₁
  refine Program.ensures_run_bind.mpr ((rests_looks (Fifo.only_awaitAnswer n) h₁).mono ?_)
  rintro (_ | _) w₂ h₂
  · exact h₂
  refine Program.ensures_run_bind.mpr ((rests_receive n h₂).mono ?_)
  rintro (_ | result) w₃ h₃
  · exact h₃
  refine Program.ensures_run_bind.mpr ((rests_looks Fifo.only_finish h₃).mono ?_)
  rintro (_ | _) w₄ h₄ <;> exact h₄

/-- Bytes that are read are no longer due. -/
theorem ensures_takePayload (ms count : Nat) (taken : List UInt8) (w : Wire) (hw : w.windows ≠ [])
    (hdue : count ≤ w.due) :
    (Fifo.takePayload base ms count taken).Ensures (tapped base)
      (fun r w' => w'.windows = w.windows ∧ r.length + w'.due = taken.length + w.due) w := by
  induction count generalizing taken w with
  | zero => exact ⟨rfl, rfl⟩
  | succ count ih =>
    refine Program.ensures_bind.mpr ((ensures_payloadReady _ _ w).mono ?_)
    rintro r w₁ ⟨hstill, hr⟩
    rw [Program.ensures_ite]
    split
    case isFalse => exact ⟨hstill.windows, by rw [hstill.due]⟩
    case isTrue hready =>
      obtain ⟨status, hstatus, hpayload⟩ := hr hready
      have hpaced : w₁.Paced MainStatus.canRead MainStatus.canReadPayload :=
        ⟨hstill.windows ▸ hw, status, hstatus, canRead_of_payload hpayload, fun _ => hpayload⟩
      refine Program.ensures_bind.mpr ((ensures_input hpaced).mono ?_)
      rintro b w₂ rfl
      have hdue₁ : w₁.due = w.due := hstill.due
      have hrest : count ≤ w₁.due - 1 := by omega
      refine (ih (b :: taken) _ (hstill.windows ▸ hw) hrest).mono ?_
      rintro bytes w' ⟨hwindows, hlength⟩
      refine ⟨hwindows.trans hstill.windows, ?_⟩
      simp only [List.length_cons] at hlength
      omega

/-- Bytes that are written are no longer due. -/
theorem ensures_givePayload (ms : Nat) (bytes : List UInt8) (given : Nat) (w : Wire)
    (hw : w.windows ≠ []) (hdue : bytes.length ≤ w.due) :
    (Fifo.givePayload base ms bytes given).Ensures (tapped base)
      (fun r w' => w'.windows = w.windows ∧ r + w'.due = given + w.due) w := by
  induction bytes generalizing given w with
  | nil => exact ⟨rfl, rfl⟩
  | cons b rest ih =>
    refine Program.ensures_bind.mpr ((ensures_payloadReady _ _ w).mono ?_)
    rintro r w₁ ⟨hstill, hr⟩
    rw [Program.ensures_ite]
    split
    case isFalse => exact ⟨hstill.windows, by rw [hstill.due]⟩
    case isTrue hready =>
      obtain ⟨status, hstatus, hpayload⟩ := hr hready
      have hpaced : w₁.Paced MainStatus.canWrite MainStatus.canWritePayload :=
        ⟨hstill.windows ▸ hw, status, hstatus, canWrite_of_payload hpayload, fun _ => hpayload⟩
      refine Program.ensures_bind.mpr ((ensures_output hpaced).mono ?_)
      rintro - w₂ rfl
      have hdue₁ : w₁.due = w.due := hstill.due
      simp only [List.length_cons] at hdue
      have hput : w₁.put b = { w₁ with due := w₁.due - 1 } := by
        rw [put, if_neg (by omega)]
      rw [hput]
      have hrest : rest.length ≤ w₁.due - 1 := by omega
      refine (ih (given + 1) _ (hstill.windows ▸ hw) hrest).mono ?_
      rintro r w' ⟨hwindows, hlength⟩
      have hsum : r + w'.due = given + 1 + (w₁.due - 1) := hlength
      exact ⟨hwindows.trans hstill.windows, by omega⟩

theorem ensures_readPayload (ms count : Nat) (w : Wire) (hdue : count ≤ w.due) :
    (Platform.uninterrupted (Fifo.readPayload base ms count)).Ensures (tapped base)
      (fun r w' => w'.windows = w.windows ∧ r.length + w'.due = w.due) w := by
  refine ensures_uninterrupted fun b => ?_
  have htake : (Fifo.takePayload base ms count []).Ensures (tapped base) _ (w.enter b) :=
    ensures_takePayload ms count [] (w.enter b) (List.cons_ne_nil _ _) hdue
  refine Program.ensures_bind.mpr (htake.mono ?_)
  rintro bytes w' ⟨hwindows, hlength⟩
  refine ⟨hwindows, rfl, ?_⟩
  have hsum : bytes.length + w'.due = 0 + w.due := hlength
  rw [List.length_reverse, hsum, Nat.zero_add]

theorem ensures_writePayload (ms : Nat) (bytes : List UInt8) (w : Wire)
    (hdue : bytes.length ≤ w.due) :
    (Platform.uninterrupted (Fifo.writePayload base ms bytes)).Ensures (tapped base)
      (fun r w' => w'.windows = w.windows ∧ r + w'.due = w.due) w := by
  refine ensures_uninterrupted fun b => ?_
  have hgive : (Fifo.givePayload base ms bytes 0).Ensures (tapped base) _ (w.enter b) :=
    ensures_givePayload ms bytes 0 (w.enter b) (List.cons_ne_nil _ _) hdue
  apply hgive.mono
  rintro sent w' ⟨hwindows, hlength⟩
  have hsum : sent + w'.due = 0 + w.due := hlength
  refine ⟨hwindows, rfl, ?_⟩
  rw [Nat.zero_add] at hsum
  exact hsum

theorem ensures_readSectors (size count : Nat) (w : Wire) (hdue : count * size ≤ w.due) :
    (Operation.readSectors base size count).Ensures (tapped base)
      (fun r w' => w'.windows = w.windows ∧ r.length + w'.due = w.due) w := by
  induction count generalizing w with
  | zero => exact ⟨rfl, Nat.zero_add _⟩
  | succ count ih =>
    rw [Nat.succ_mul] at hdue
    refine Program.ensures_bind.mpr ((ensures_still ((Fifo.only_awaitStatus _ _).mono fun _ =>
      quiet_of_looks) w).mono ?_)
    rintro - w₁ hstill
    have hdue₁ : w₁.due = w.due := hstill.due
    refine Program.ensures_bind.mpr ((ensures_readPayload _ _ w₁ (by omega)).mono ?_)
    rintro bytes w₂ ⟨hwindows, hlength⟩
    rw [Program.ensures_ite]
    split
    case isFalse => exact ⟨hwindows.trans hstill.windows, by omega⟩
    case isTrue hwhole =>
      refine Program.ensures_bind.mpr ((ih w₂ (by omega)).mono ?_)
      rintro rest w' ⟨hwindows', hlength'⟩
      refine ⟨hwindows'.trans (hwindows.trans hstill.windows), ?_⟩
      rw [List.length_append]
      omega

theorem ensures_writeSectors (size count : Nat) (bytes : List UInt8) (w : Wire)
    (hdue : count * size ≤ w.due) :
    (Operation.writeSectors base size count bytes).Ensures (tapped base)
      (fun r w' => w'.windows = w.windows ∧ r + w'.due = w.due) w := by
  induction count generalizing bytes w with
  | zero => exact ⟨rfl, Nat.zero_add _⟩
  | succ count ih =>
    rw [Nat.succ_mul] at hdue
    refine Program.ensures_bind.mpr ((ensures_still ((Fifo.only_awaitStatus _ _).mono fun _ =>
      quiet_of_looks) w).mono ?_)
    rintro - w₁ hstill
    have hdue₁ : w₁.due = w.due := hstill.due
    have htake : (bytes.take size).length ≤ w₁.due := by
      rw [List.length_take]
      omega
    refine Program.ensures_bind.mpr ((ensures_writePayload _ _ w₁ htake).mono ?_)
    rintro sent w₂ ⟨hwindows, hlength⟩
    rw [Program.ensures_ite]
    split
    case isFalse => exact ⟨hwindows.trans hstill.windows, by omega⟩
    case isTrue hwhole =>
      refine Program.ensures_bind.mpr ((ih _ w₂ (by omega)).mono ?_)
      rintro rest w' ⟨hwindows', hlength'⟩
      exact ⟨hwindows'.trans (hwindows.trans hstill.windows), by omega⟩

end Diskette.Wire
