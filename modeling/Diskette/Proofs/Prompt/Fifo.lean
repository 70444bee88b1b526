import Diskette.Proofs.Prompt.Machine

/-!
Bytes over the data port of a simulated machine that is left to itself. Where the controller is ready at the first
look nobody waits, and a command that does not interrupt goes by unheard.
-/
namespace Diskette

open Simulated InterruptUnit

variable {α : Type} {m m' : Simulated} {base : UInt16} {k : Core} {ready : MainStatus → Bool} {bytes : List UInt8}

namespace Simulated

/-- The flag is cleared. -/
def suppressed (m : Simulated) : Simulated := m.unit fun u => { u with enabled := false }

/-- The flag is set, and what is due is delivered. -/
def resumed (m : Simulated) : Simulated := m.unit fun u => { u with enabled := true }.deliver

theorem core_resumed : m.resumed.core = m.core := Core.core_deliver fun _ => rfl

theorem ensures_window {p : Routine α} {Q : α → Simulated → Prop} (henabled : m.interrupts.enabled = true)
    (h : p.Ensures alone (fun a m' => Q a m'.resumed) m.suppressed) :
    (Platform.uninterrupted p).Ensures alone Q m := by
  refine Program.ensures_bind.mpr (ensures_alone_call.mpr (Program.ensures_bind.mpr (h.mono ?_)))
  intro a m' hQ
  refine ensures_alone_call.mpr ?_
  change Q a (if m.interrupts.enabled then m'.resumed else m')
  rw [if_pos henabled]
  exact hQ

/-- The flag is set, and nothing waits for it. -/
structure Clear (m : Simulated) : Prop where
  enabled : m.interrupts.enabled = true
  drained : m.interrupts.Drained

theorem Clear.of_hearing (hm : m.Clear) (h : m'.hearing = m.hearing) : m'.Clear := by
  have henabled : m'.interrupts.enabled = true := (congrArg Hearing.enabled h).trans hm.enabled
  exact ⟨henabled, (Outlasts.of_hearing h).alert (fun _ => hm.drained) henabled⟩

/-- A window that nothing is heard of may as well not have been. -/
theorem hearing_resumed (hm : m.Clear) (h : m'.hearing = m.suppressed.hearing) : m'.resumed.hearing = m.hearing := by
  have hmasked : m'.interrupts.masked = m.interrupts.masked := congrArg Hearing.masked h
  have hpending : m'.interrupts.pending = m.interrupts.pending := congrArg Hearing.pending h
  have hstill : Drained { m'.interrupts with enabled := true } := by
    intro irq hirq hdue
    refine hm.drained irq hirq ?_
    simpa only [Due, isPending, isMasked, hmasked, hpending] using hdue
  have hresumed : m'.resumed.hearing = { m'.hearing with enabled := true } := by
    simp only [resumed, Simulated.unit, deliver_of_drained hstill]
    rfl
  rw [hresumed, h]
  exact congrArg (fun flag => { m.hearing with enabled := flag }) hm.enabled.symm

theorem ensures_quiet_window {p : Routine α} {Q : α → Core → Prop} (hm : m.Clear)
    (h : p.Ensures alone (fun a m' => Q a m'.core ∧ m'.hearing = m.suppressed.hearing) m.suppressed) :
    (Platform.uninterrupted p).Ensures alone (fun a m' => Q a m'.core ∧ m'.hearing = m.hearing) m := by
  refine ensures_window hm.enabled (h.mono ?_)
  rintro a m' ⟨hQ, hhearing⟩
  exact ⟨core_resumed.symm ▸ hQ, hearing_resumed hm hhearing⟩

/-- A routine that nothing is heard of, and what is known of it apart from that. -/
theorem ensures_unheard_core {p : Routine α} {Q : α → Core → Prop} (hp : p.Only Unheard)
    (h : p.Ensures Core.surroundings Q m.core) :
    p.Ensures alone (fun a m' => Q a m'.core ∧ m'.hearing = m.hearing) m :=
  (ensures_alone_core h).and (ensures_unheard hp)

theorem ensures_readStatus_alone (h : Core.At base m.core) : (Fifo.readStatus base).Ensures alone
    (fun s m' => s = m.core.status ∧ Alike m m') m := by
  apply (ensures_unheard_core (Fifo.only_readStatus_of_look trivial) (Core.ensures_readStatus h)).mono
  rintro s m' ⟨⟨hcore, hstatus⟩, hhearing⟩
  exact ⟨hstatus, hcore, hhearing⟩

/-- A status that is as it should be is seen at the first look. -/
theorem ensures_awaitStatus_alone (h : Core.At base m.core) (hready : ready m.core.status = true) (ms : Nat) :
    (Fifo.awaitStatus base ready ms).Ensures alone (fun r m' => r = true ∧ Alike m m') m := by
  have hfor : ∀ delays,
      (Fifo.awaitStatusFor base ready delays).Ensures alone (fun r m' => r = true ∧ Alike m m') m := by
    intro delays
    cases delays with
    | zero =>
      refine Program.ensures_bind.mpr ((ensures_readStatus_alone h).mono ?_)
      rintro _ m' ⟨rfl, halike⟩
      exact ⟨hready, halike⟩
    | succ delays =>
      refine Program.ensures_bind.mpr ((ensures_readStatus_alone h).mono ?_)
      rintro _ m' ⟨rfl, halike⟩
      rw [if_pos hready]
      exact ⟨rfl, halike⟩
  exact hfor (ms - 1)

theorem ensures_awaitResult_alone (h : Core.At base m.core) (hready : m.core.status.dataReady = true) :
    (Fifo.awaitResult base).Ensures alone (fun r m' => r = .ok () ∧ Alike m m') m := by
  refine Program.ensures_bind.mpr ((ensures_awaitStatus_alone h hready _).mono ?_)
  rintro _ m' ⟨rfl, halike⟩
  exact ⟨rfl, halike⟩

theorem ensures_awaitAnswer_alone (h : Core.At base m.core) (hready : m.core.status.dataReady = true)
    (n : ResultLength) : (Fifo.awaitAnswer base n).Ensures alone (fun r m' => r = .ok () ∧ Alike m m') m := by
  unfold Fifo.awaitAnswer
  split
  · exact ensures_awaitResult_alone h hready
  · exact ⟨rfl, .refl m⟩

theorem ensures_finish_alone (h : Core.Idle base m.core) (hlimit : m.core.faults.commandLimit ≠ some 0) :
    (Fifo.finish base).Ensures alone (fun r m' => r = .ok () ∧ Alike m m') m := by
  have hlook :=
    ensures_unheard_core (Fifo.only_awaitReadyWithin_of_look trivial _) (Core.ensures_awaitReadyWithin h.toAt 19)
  refine Program.ensures_bind.mpr (hlook.mono ?_)
  rintro _ m₁ ⟨⟨hcore, -⟩, hhearing⟩
  have hidle : Core.Idle base m₁.core := hcore.symm ▸ h
  have hquiet : !m₁.core.status.busy := by
    rw [hcore, h.status hlimit]
    rfl
  refine Program.ensures_bind.mpr ((ensures_awaitStatus_alone hidle.toAt hquiet _).mono ?_)
  rintro _ m₂ ⟨rfl, halike⟩
  exact ⟨rfl, .trans ⟨hcore, hhearing⟩ halike⟩

theorem ensures_output_data (h : Core.At base m.core) (b : UInt8) : (Platform.output (Port.data base) b).Ensures alone
    (fun _ m' => ∃ m₁, Alike m m₁ ∧ m' = m₁.acceptByte b) m :=
  ensures_alone_call.mpr ⟨m.notingWrite (Port.data base) b, ⟨rfl, rfl⟩, h.output 5 (by decide) b⟩

theorem ensures_output_register (h : Core.At base m.core) (value : UInt8) :
    (Platform.output (Port.digitalOutput base) value).Ensures alone
      (fun _ m' => ∃ m₁, Alike m m₁ ∧ m' = m₁.writeOutput value) m :=
  ensures_alone_call.mpr ⟨m.notingWrite (Port.digitalOutput base) value, ⟨rfl, rfl⟩, h.output 2 (by decide) value⟩

/-- A command that goes out whole is obeyed at its last byte, and until then nothing is heard. -/
def Obeyed (m : Simulated) (bytes : List UInt8) (m' : Simulated) : Prop :=
  ∃ m₁ : Simulated, m₁.core = m.core.took bytes ∧ m₁.hearing = m.hearing ∧ m' = m₁.obey (.ofBytes bytes)

/-- What part of a command had come makes no difference to one that is obeyed. -/
theorem Obeyed.of_partway {m₁ : Simulated} {taken : List UInt8} (hcore : m₁.core = m.core.partway taken)
    (hhearing : m₁.hearing = m.hearing) (h : m₁.Obeyed bytes m') : m.Obeyed bytes m' := by
  obtain ⟨m₂, hcore₂, hhearing₂, rfl⟩ := h
  rw [hcore] at hcore₂
  exact ⟨m₂, hcore₂, hhearing₂.trans hhearing, rfl⟩

section

variable {m₁ : Simulated} {b : UInt8} (h : Alike m m₁)

include h

theorem Alike.acceptByte_command (hreset : m.core.fdc.inReset = false) (hstage : m.core.fdc.stage = .command)
    (hlimit : m.core.faults.commandLimit = none) : m₁.acceptByte b = m₁.takeCommandByte b := by
  rw [← h.core] at hreset hstage hlimit
  have hunlimited : m₁.core.faults.commandLimit ≠ some m₁.core.fdc.partialCommand.length := by simp [hlimit]
  exact Core.acceptByte_command hreset hstage hunlimited b

/-- The last byte of a command makes the controller obey it. -/
theorem Alike.obeyed (hwhole : (m.core.fdc.partialCommand ++ [b]).length =
      Order.length ((m.core.fdc.partialCommand ++ [b]).headD 0)) :
    m.Obeyed (m.core.fdc.partialCommand ++ [b]) (m₁.takeCommandByte b) := by
  have hpartial : m₁.fdc.partialCommand = m.core.fdc.partialCommand := congrArg (·.fdc.partialCommand) h.core
  dsimp only [takeCommandByte]
  rw [hpartial, if_pos hwhole]
  refine ⟨_, ?_, ?_, rfl⟩
  · exact congrArg (Core.took · _) h.core
  · exact h.hearing

/-- Any other byte is kept with those before it. -/
theorem Alike.kept (hpart : (m.core.fdc.partialCommand ++ [b]).length ≠
      Order.length ((m.core.fdc.partialCommand ++ [b]).headD 0)) :
    (m₁.takeCommandByte b).core = m.core.partway (m.core.fdc.partialCommand ++ [b]) ∧
      (m₁.takeCommandByte b).hearing = m.hearing := by
  have hpartial : m₁.fdc.partialCommand = m.core.fdc.partialCommand := congrArg (·.fdc.partialCommand) h.core
  dsimp only [takeCommandByte]
  rw [hpartial, if_neg hpart]
  exact ⟨congrArg (Core.partway · _) h.core, h.hearing⟩

end

theorem ensures_sendFrom_alone (h : Core.At base m.core) (hreset : m.core.fdc.inReset = false)
    (hstage : m.core.fdc.stage = .command) (hlimit : m.core.faults.commandLimit = none) (hbytes : bytes ≠ [])
    (hlength : (m.core.fdc.partialCommand ++ bytes).length =
      Order.length ((m.core.fdc.partialCommand ++ bytes).headD 0)) (total sent : Nat) :
    (Fifo.sendFrom base total bytes sent).Ensures alone
      (fun r m' => r = .ok () ∧ m.Obeyed (m.core.fdc.partialCommand ++ bytes) m') m := by
  induction bytes generalizing m sent with
  | nil => exact absurd rfl hbytes
  | cons b rest ih =>
    have hopen : m.core.status.canWrite = true := (Core.canWrite_status hreset hstage).mpr (by simp [hlimit])
    have hlook := ensures_unheard_core (Fifo.only_writable_of_look trivial) (Core.ensures_writable h)
    refine Program.ensures_bind.mpr (hlook.mono ?_)
    rintro writable m₁ ⟨⟨hcore₁, rfl⟩, hhearing₁⟩
    rw [Program.ensures_ite, if_pos hopen]
    refine Program.ensures_bind.mpr ((ensures_output_data (hcore₁.symm ▸ h) b).mono ?_)
    rintro _ _ ⟨m₂, hwritten, rfl⟩
    have halike : Alike m m₂ := .trans ⟨hcore₁, hhearing₁⟩ hwritten
    rw [halike.acceptByte_command hreset hstage hlimit]
    cases rest with
    | nil => exact ⟨rfl, halike.obeyed hlength⟩
    | cons b' rest =>
      obtain ⟨hcore, hhearing⟩ := halike.kept (Order.length_ne_of_more hlength)
      generalize m₂.takeCommandByte b = m₃ at hcore hhearing
      rw [List.append_cons] at hlength ⊢
      have hrest := ih (m := m₃) (hcore ▸ h.same (Core.same_partway _ _)) (by rw [hcore]; exact hreset)
        (by rw [hcore]; exact hstage) (by rw [hcore]; exact hlimit) (by simp) (by rw [hcore]; exact hlength) (sent + 1)
      apply Program.Ensures.mono hrest
      rintro r m' ⟨hr, hobeyed⟩
      rw [hcore] at hobeyed
      exact ⟨hr, hobeyed.of_partway hcore hhearing⟩

theorem ensures_send_alone (h : Core.Idle base m.core) (hlimit : m.core.faults.commandLimit = none)
    (hbytes : bytes ≠ []) (hlength : bytes.length = Order.length (bytes.headD 0)) :
    (Fifo.send base bytes).Ensures alone (fun r m' => r = .ok () ∧ m.Obeyed bytes m') m := by
  have hsend := ensures_sendFrom_alone h.toAt h.outOfReset h.command hlimit hbytes
    (by rw [h.whole]; exact hlength) bytes.length 0
  rwa [h.whole] at hsend

theorem ensures_receive_alone {n : ResultLength} {bs : List UInt8} (hm : m.Clear) (hopen : Core.Open base k)
    (hgive : bs ≠ [] → k.faults.withholdResults = false) (hcore : m.core = k.answer bs)
    (hfewest : n.fewest ≤ bs.length) (hmost : bs.length ≤ min n.most maxResult) :
    (Platform.uninterrupted (Fifo.receive base n)).Ensures alone (fun r m' =>
      ((∃ result, r = .ok result ∧ result.toList = bs) ∧ m'.core = k.answer []) ∧ m'.hearing = m.hearing) m := by
  have hreceive : (Fifo.receive base n).Ensures Core.surroundings (fun r k' =>
      (∃ result, r = .ok result ∧ result.toList = bs) ∧ k' = k.answer []) m.suppressed.core := by
    change (Fifo.receive base n).Ensures Core.surroundings _ m.core
    rw [hcore]
    exact Core.ensures_receive hopen.toAt hopen.outOfReset hgive hfewest hmost
  exact ensures_quiet_window hm (ensures_unheard_core (Fifo.only_receive_of_reads trivial trivial n) hreceive)

/-- A command that does not interrupt, with its result. -/
theorem ensures_transact_alone {n : ResultLength} {bs : List UInt8} {k₁ : Core} (hm : m.Clear)
    (h : Core.Idle base m.core) (hf : m.core.faults.Harmless) (hbytes : bytes ≠ [])
    (hlength : bytes.length = Order.length (bytes.headD 0))
    (hobey : ∀ m₁ : Simulated, m₁.core = m.core.took bytes →
      (m₁.obey (.ofBytes bytes)).core = k₁.answer bs ∧ (m₁.obey (.ofBytes bytes)).hearing = m₁.hearing)
    (hopen : Core.Open base k₁) (hfaults : k₁.faults = m.core.faults) (hfewest : n.fewest ≤ bs.length)
    (hmost : bs.length ≤ min n.most maxResult) :
    (Fifo.transact base bytes n).Ensures alone (fun r m' => (∃ result, r = .ok result ∧ result.toList = bs) ∧
      m'.core = k₁.answer [] ∧ m'.hearing = m.hearing) m := by
  have hf₁ : k₁.faults.Harmless := hfaults ▸ hf
  have hlimit₁ : k₁.faults.commandLimit ≠ some 0 := by simp [hf₁.commandLimit]
  have hgive : bs ≠ [] → k₁.faults.withholdResults = false := fun _ => hf₁.withholdResults
  have hsend : (Platform.uninterrupted (Fifo.send base bytes)).Ensures alone
      (fun r m' => (r = .ok () ∧ m'.core = k₁.answer bs) ∧ m'.hearing = m.hearing) m := by
    refine ensures_quiet_window (Q := fun (r : Except Failure Unit) k' => r = .ok () ∧ k' = k₁.answer bs) hm ?_
    apply (ensures_send_alone (m := m.suppressed) h hf.commandLimit hbytes hlength).mono
    rintro r m' ⟨rfl, m₁, hcore, hhearing, rfl⟩
    obtain ⟨hanswer, hquiet⟩ := hobey m₁ hcore
    exact ⟨⟨rfl, hanswer⟩, hquiet.trans hhearing⟩
  refine Program.ensures_run_bind.mpr (hsend.mono ?_)
  rintro _ m₁ ⟨⟨rfl, hcore₁⟩, hhearing₁⟩
  have hat : Core.At base m₁.core := hcore₁.symm ▸ (hopen.answer bs).toAt
  have hready : m₁.core.status.dataReady = true := by
    rw [hcore₁]
    exact Core.dataReady_answer hopen hgive hlimit₁
  refine Program.ensures_run_bind.mpr ((ensures_awaitAnswer_alone hat hready n).mono ?_)
  rintro _ m₂ ⟨rfl, hcore₂, hhearing₂⟩
  have hhearing : m₂.hearing = m.hearing := hhearing₂.trans hhearing₁
  have hreceive := ensures_receive_alone (hm.of_hearing hhearing) hopen hgive (hcore₂.trans hcore₁) hfewest hmost
  refine Program.ensures_run_bind.mpr (hreceive.mono ?_)
  rintro r m₃ ⟨⟨⟨result, rfl, hresult⟩, hcore₃⟩, hhearing₃⟩
  have hfinish := ensures_finish_alone (m := m₃) (hcore₃.symm ▸ hopen.idle) (by rw [hcore₃]; exact hlimit₁)
  refine Program.ensures_run_bind.mpr (hfinish.mono ?_)
  rintro _ m₄ ⟨rfl, halike⟩
  exact ⟨⟨result, rfl, hresult⟩, halike.core.trans hcore₃, halike.hearing.trans (hhearing₃.trans hhearing)⟩

end Simulated
end Diskette
