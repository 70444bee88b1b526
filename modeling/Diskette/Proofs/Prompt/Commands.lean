import Diskette.Proofs.Prompt.Steps
import Diskette.Proofs.Simulated.Station

/-!
Whole commands on a simulated machine that is left to itself, with the line heard: each that interrupts is ended by
the interrupt, and nobody waits but for the motor.
-/
namespace Diskette

open Simulated InterruptUnit

variable {c c' : Controller} {m m' : Simulated} {k : Core} {l : Line} {t : Nat} {command : Command} {drive : Drive}
  {flags : RecordingMode} {span : SectorSpan} {transfer : Transfer}

/-- A command that the interrupt has ended, by a time, with the driver in the setting that it was in. -/
structure EndedByInterrupt (l : Line) (t : Nat) (c : Controller) (report : Report) (c' : Controller)
    (m' : Simulated) : Prop where
  endedBy : report.endedBy = .interrupt
  setting : c'.setting = c.setting
  heeds : Heeds l t m'

/-- A delivery that goes well, by the interrupt. -/
abbrev EndsByInterrupt (l : Line) (t : Nat) (d : Delivery Report) (c : Controller) (m : Simulated) : Prop :=
  Delivery.Ensures alone d (fun report _ => EndedByInterrupt l t c report) (fun _ _ _ _ => False) [] c m

/-- A head that arrives signals, and the interrupt stays pending in the window. -/
theorem hearing_arrive {cylinder : UInt8} (hgate : m.fdc.gateOpen = true) (hsilent : m.faults.silent = false)
    (hclear : m.interrupts.enabled = false) : (m.arrive drive 0 cylinder).hearing = m.hearing.rung :=
  hearing_signal hgate hsilent hclear

theorem runs_runSeek (hm : Heeds l t m) (h : Settled c m.core) (hf : m.core.faults.Harmless) (hr : Relies l c)
    (hgate : c.shadow.output.gate = true) (hkind : command.kind = .seek) (hvalid : command.validate = .ok ()) :
    Runs (Operation.runSeek command (command.bytes drive flags) drive) (EndedByInterrupt l t c) c m := by
  obtain ⟨cylinder, -, harrive⟩ := exists_arrive hkind hvalid drive m.core.fdc.cylinders
  have hlength := Command.length_bytes command drive flags
  have hopen := h.idle.toOpen.arrived (command.bytes drive flags) drive cylinder
  have hobey : ∀ m₁ : Simulated, m₁.core = m.core.took (command.bytes drive flags) →
      m₁.obey (.ofBytes (command.bytes drive flags)) = m₁.arrive drive 0 cylinder := by
    intro m₁ hm₁
    rw [Command.ofBytes_bytes hvalid]
    exact harrive m₁ (congrArg (fun k => k.fdc.cylinders) hm₁)
  have hring : ∀ m₁ : Simulated, m₁.core = m.core.took (command.bytes drive flags) → m₁.faults.silent = false →
      m₁.interrupts.enabled = false →
      (m₁.obey (.ofBytes (command.bytes drive flags))).hearing = m₁.hearing.rung := by
    intro m₁ hm₁ hsilent hclear
    rw [hobey m₁ hm₁]
    refine hearing_arrive ?_ hsilent hclear
    exact (congrArg (fun k => k.fdc.gateOpen) hm₁).trans (h.toLinked.gateOpen.trans hgate)
  have hinterrupting : (c.path == .channel) = true := by rw [hr.path]; rfl
  have hload : (Operation.setUpChannel none).Ensures alone (fun _ m' =>
      m'.core = { m.core with channel := m.core.channel } ∧ m'.hearing = m.suppressed.hearing) m.suppressed :=
    ⟨rfl, rfl⟩
  unfold Operation.runSeek
  rw [Runs, Attempt.ensures_bind, Attempt.ensures_getThe, hinterrupting]
  have hsend := runs_sendCommand hm h.idle hf hr.line (ne_nil_of_order hlength) hlength hload hring
  refine Attempt.ensures_bind.mpr (hsend.mono ?_ fun _ _ _ => id)
  rintro _ c₁ m₁ ⟨hc₁, hm₁, harmed, m₀, hcore₀, hcore₁⟩
  rw [hobey m₀ hcore₀, core_arrive, hcore₀] at hcore₁
  have hr₁ := hr.of_setting hc₁.setting
  refine Attempt.ensures_bind.mpr ((runs_awaitEnd hm₁ hr₁.line hr₁.path harmed _ _).mono ?_ fun _ _ _ => id)
  rintro _ c₂ m₂ ⟨rfl, hc₂, hcore₂, hm₂⟩
  have hc : Abides c c₂ := hc₁.trans hc₂
  rw [← hc.base] at hopen
  rw [resultLength_of_seek hkind]
  have hresult := runs_takeResult (n := .exactly 0) hm₂ (hcore₂.trans hcore₁) hopen hf (Nat.le_refl 0) (Nat.le_refl 0)
  refine Attempt.ensures_bind.mpr (hresult.mono ?_ fun _ _ _ => id)
  rintro _ c₃ m₃ ⟨-, hc₃, hcore₃, hm₃⟩
  rw [← hc₃.base] at hopen
  have hpending : m₃.core.fdc.pending = [(drive.index ||| 0x20, cylinder)] := by
    rw [hcore₃]
    exact congrArg (· ++ _) h.quiet
  have hidle : Core.Idle c₃.base m₃.core := hcore₃.symm ▸ hopen.idle
  have hsense := runs_senseHead hm₃ hidle (by rw [hcore₃]; exact hf) hpending
  refine Attempt.ensures_bind.mpr (hsense.mono ?_ fun _ _ _ => id)
  rintro _ c₄ m₄ ⟨hc₄, hm₄⟩
  exact ⟨rfl, (hc.trans (hc₃.trans hc₄)).setting, hm₄⟩

theorem unheard_setUp (direction : Direction) (address : UInt32) (length : Nat) :
    (Channel.setUp fdcChannel direction address length).Only Unheard :=
  .bind (.perform trivial) fun _ => .bind (.perform trivial) fun _ => .bind (.perform trivial) fun _ =>
    .bind (.perform trivial) fun _ => .bind (.perform trivial) fun _ => .bind (.perform trivial) fun _ => .done

theorem unheard_moved (requested : Nat) : (Channel.moved fdcChannel requested).Only Unheard :=
  .bind (.perform trivial) fun _ => .bind (.perform trivial) fun _ => .ite .done .done

theorem unheard_fillBounce (transfer : Transfer) : (Operation.fillBounce transfer).Only Unheard := by
  unfold Operation.fillBounce
  split
  · exact .perform trivial
  · exact .done

/-- What is to be written goes into the bounce buffer, and nothing is heard of that. -/
theorem ensures_fillBounce_alone (h : Settled c m.core) (hlength : transfer.length ≤ transfer.buffer.bytes.length)
    (hbounce : transfer.length ≤ m.core.bounce.size) :
    (Operation.fillBounce transfer).Ensures alone (fun _ m' => Core.Same m.core m'.core ∧ Settled c m'.core ∧
      m'.core.Filled transfer ∧ m'.hearing = m.hearing) m := by
  apply (ensures_unheard_core (unheard_fillBounce transfer) (ensures_fillBounce hlength hbounce)).mono
  rintro _ m₁ ⟨⟨bounce, hcore, hsize, hfilled⟩, hhearing⟩
  have hsame : Core.Same m.core m₁.core := by
    rw [hcore]
    exact ⟨rfl, rfl, rfl, rfl, rfl, rfl, rfl, hsize⟩
  refine ⟨hsame, h.same (.refl c) hsame ?_ ?_ ?_, hfilled, hhearing⟩ <;> rw [hcore]
  · exact h.whole
  · exact h.command
  · exact h.quiet

theorem runs_receiveStatus {bs : List UInt8} (hm : Heeds l t m) (hcore : m.core = k.answer bs)
    (hopen : Core.Open c.base k) (hf : k.faults.Harmless) (hlength : bs.length = maxResult) :
    Runs Operation.receiveStatus (fun result c' m' => result.toList = bs ∧ Abides c c' ∧ m'.core = k.answer [] ∧
      Heeds l t m') c m := by
  have htake := runs_takeResult (n := .exactly maxResult) hm hcore hopen hf (Nat.le_of_eq hlength.symm)
    (Nat.le_of_eq hlength)
  refine Attempt.ensures_bind.mpr (htake.mono ?_ fun _ _ _ => id)
  rintro result c₁ m₁ ⟨hresult, hc₁, hcore₁, hm₁⟩
  exact ⟨hresult, ⟨hc₁.setting, hc₁.specified⟩, hcore₁, hm₁⟩

theorem runs_conclude {bs : List UInt8} {result : ResultBytes (.exactly maxResult)} (hresult : result.toList = bs)
    (hgood : indicatesFailure .transfer (bs.getD 0 0) (bs.getD 1 0) (bs.getD 2 0) = false) (endedBy : EndSign) :
    Runs (Operation.conclude span transfer result transfer.length endedBy) (fun report c' m' =>
      report.endedBy = endedBy ∧ c' = c ∧ Alike m m') c m := by
  have hst0 : result.byte 0 = bs.getD 0 0 := byte_of_toList hresult 0
  have hst1 : result.byte 1 = bs.getD 1 0 := byte_of_toList hresult 1
  have hst2 : result.byte 2 = bs.getD 2 0 := byte_of_toList hresult 2
  unfold Operation.conclude Operation.checkStatus
  rw [hst0, hst1, hst2, hgood, if_neg Bool.false_ne_true, if_neg (Nat.lt_irrefl _)]
  simp only [Runs, Attempt.ensures_bind, Attempt.ensures_pure, Attempt.ensures_operation, Operation.ensures_log,
    Attempt.ensures_getThe]
  exact ensures_alone_call.mpr ⟨trivial, trivial, rfl, rfl⟩

theorem ensures_emptyBounce_alone (moved : Nat) {taken : List UInt8} :
    Delivery.Ensures alone (Operation.emptyBounce transfer moved) (fun _ _ c' m' => c' = c ∧ Alike m m')
      (fun _ _ _ _ => False) taken c m := by
  unfold Operation.emptyBounce
  split
  · exact ⟨rfl, .refl m⟩
  · refine Delivery.ensures_bind.mpr (Delivery.ensures_lift.mpr (ensures_alone_call.mpr ?_))
    exact ⟨rfl, rfl, rfl⟩

/-- A payload that goes through the channel at the last byte of its command, and signals then. -/
theorem hearing_obey_channel (hfits : transfer.Fits command span) (hpath : m.fdc.nonDma = false)
    (hgate : m.fdc.gateOpen = true) (hsilent : m.faults.silent = false) (hclear : m.interrupts.enabled = false)
    {address : UInt32} (hchannel : m.core.channel = loadedChannel transfer.direction address transfer.length) :
    (m.obey (command.order drive)).hearing = m.hearing.rung := by
  have hawaited : m.Awaited (transfer.direction == .fromMemory) := by
    have hready : (m.channels fdcChannel).readyFor
        (if (transfer.direction == .fromMemory) then .fromMemory else .toMemory) = true := by
      change m.core.channel.readyFor _ = true
      rw [hchannel]
      cases transfer.direction <;> rfl
    unfold Awaited
    rw [hgate, hready]
    rfl
  obtain ⟨m₁, hhearing, hopen, hsignal⟩ := channelTransfer_of_awaited (x := span.extent drive) hawaited
  rw [order_of_transfer hfits.data]
  have hstart : m.obey (.transfer (transfer.direction == .fromMemory) (span.extent drive)) = signal m₁ := by
    rw [← hsignal]
    exact if_neg (Bool.eq_false_iff.mp hpath)
  rw [hstart, ← hhearing]
  refine hearing_signal (hopen.trans hgate) ?_ ?_
  · exact (congrArg Hearing.silent hhearing).trans hsilent
  · exact (congrArg Hearing.enabled hhearing).trans hclear

/-- A data command goes out, and its payload goes through and the interrupt comes before the next step. -/
theorem runs_sendThrough (hm : Heeds l t m) (h : Settled c m.core) (hf : m.core.faults.Harmless) (hr : Relies l c)
    (hpath : m.core.fdc.nonDma = false) (hgate : c.shadow.output.gate = true) (hfits : transfer.Fits command span)
    (hbounce : transfer.length ≤ m.core.bounce.size)
    (hread : (m.core.fdc.disk.read (span.extent drive)).length = span.byteLength)
    (hfilled : m.core.Filled transfer) :
    Runs (Operation.sendCommand (command.bytes drive flags) true
        (some ⟨fdcChannel, transfer.direction, m.core.bounceAddress, transfer.length⟩))
      (fun _ c' m' => Abides c c' ∧ Heeds l t m' ∧ c'.expectation = .armed (m'.interrupts.memory.counter l.id).fired ∧
        ∃ k₁, m'.core = k₁.answer ((span.extent drive).result (span.extent drive).unit 0 0) ∧
          Crossed transfer (span.extent drive) (m.core.took (command.bytes drive flags)) k₁) c m := by
  have hlength := Command.length_bytes command drive flags
  have hopen : m.core.fdc.gateOpen = true := h.toLinked.gateOpen.trans hgate
  have hload : (Operation.setUpChannel
      (some ⟨fdcChannel, transfer.direction, m.core.bounceAddress, transfer.length⟩)).Ensures alone
        (fun _ m' => m'.core =
          { m.core with channel := loadedChannel transfer.direction m.core.bounceAddress transfer.length } ∧
            m'.hearing = m.suppressed.hearing) m.suppressed :=
    ensures_unheard_core (m := m.suppressed) (unheard_setUp _ _ _) (ensures_setUp _ _ _)
  have hring : ∀ m₁ : Simulated, m₁.core =
      Core.took { m.core with channel := loadedChannel transfer.direction m.core.bounceAddress transfer.length }
        (command.bytes drive flags) → m₁.faults.silent = false → m₁.interrupts.enabled = false →
      (m₁.obey (.ofBytes (command.bytes drive flags))).hearing = m₁.hearing.rung := by
    intro m₁ hm₁ hsilent hclear
    rw [Command.ofBytes_bytes hfits.valid]
    refine hearing_obey_channel hfits ?_ ?_ hsilent hclear (congrArg Core.channel hm₁)
    · exact (congrArg (fun k => k.fdc.nonDma) hm₁).trans hpath
    · exact (congrArg (fun k => k.fdc.gateOpen) hm₁).trans hopen
  refine (runs_sendCommand hm h.idle hf hr.line (ne_nil_of_order hlength) hlength hload hring).mono ?_ fun _ _ _ => id
  rintro _ c₁ m₁ ⟨hc₁, hm₁, harmed, m₀, hcore₀, hcore₁⟩
  rw [Command.ofBytes_bytes hfits.valid] at hcore₁
  obtain ⟨k₁, hobey, hcrossed⟩ := core_obey_channel hcore₀ hfits hpath hopen hf rfl hread hbounce
    hfilled
  exact ⟨hc₁, hm₁, harmed, k₁, hcore₁.trans hobey,
    ⟨hcrossed.registers, hcrossed.faults, hcrossed.bounce, hcrossed.terminal, hcrossed.payload⟩⟩

theorem delivers_transferByChannel_alone (hm : Heeds l t m) (h : Settled c m.core) (hf : m.core.faults.Harmless)
    (hr : Relies l c) (hpath : m.core.fdc.nonDma = false) (hgate : c.shadow.output.gate = true)
    (hfits : transfer.Fits command span) (hbounce : transfer.length ≤ m.core.bounce.size)
    (hread : (m.core.fdc.disk.read (span.extent drive)).length = span.byteLength) :
    EndsByInterrupt l t (Operation.transferByChannel fdcChannel (command.bytes drive flags) span transfer) c m := by
  have hvalid : span.validate = .ok () := Command.validate_span hfits.data hfits.valid
  have hhead : span.head ≤ 1 := (SectorSpan.validate_eq_ok_iff.mp hvalid).1
  unfold Operation.transferByChannel
  rw [EndsByInterrupt, Delivery.ensures_bind, Delivery.ensures_lift]
  apply (ensures_fillBounce_alone h hfits.length_le hbounce).mono
  rintro _ m₁ ⟨hsame, h₁, hfilled, hhearing₁⟩
  have hm₁ := hm.of_hearing hhearing₁
  have hf₁ : m₁.core.faults.Harmless := hsame.faults ▸ hf
  have hread₁ : (m₁.core.fdc.disk.read (span.extent drive)).length = span.byteLength := by
    rw [hsame.disk]
    exact hread
  rw [Delivery.ensures_bind, Delivery.ensures_lift]
  refine ensures_alone_call.mpr ?_
  rw [Program.ensures_done, Delivery.ensures_bind, Delivery.ensures_attempt]
  refine Attempt.Ensures.mono (runs_sendThrough hm₁ h₁ hf₁ hr (hsame.nonDma.trans hpath) hgate hfits
    (hsame.bounce ▸ hbounce) hread₁ hfilled) ?_ fun _ _ _ => id
  -- The payload and the interrupt have come with the last byte of the command, so that no wait is left to be done.
  rintro _ c₂ m₂ ⟨hc₂, hm₂, harmed, k₁, hcore₂, hcrossed⟩
  have hopen : Core.Open c₂.base k₁ := (hc₂.base ▸ h₁.idle.took _).crossed hcrossed
  have hfaults : k₁.faults.Harmless := hcrossed.faults ▸ hf₁
  have hr₂ := hr.of_setting hc₂.setting
  rw [Delivery.ensures_bind, Delivery.ensures_attempt]
  refine (runs_awaitEnd hm₂ hr₂.line hr₂.path harmed _ _).mono ?_ fun _ _ _ => id
  rintro _ c₃ m₃ ⟨rfl, hc₃, hcore₃, hm₃⟩
  rw [← hc₃.base] at hopen
  rw [hcore₂] at hcore₃
  have hready : m₃.core.status.dataReady = true := by
    rw [hcore₃]
    exact Core.dataReady_answer hopen (fun _ => hfaults.withholdResults) (by simp [hfaults.commandLimit])
  rw [Delivery.ensures_bind, Delivery.ensures_attempt]
  refine (runs_awaitResult hm₃ (hcore₃.symm ▸ (hopen.answer _).toAt) hready).mono ?_ fun _ _ _ => id
  rintro _ c₃ m₄ ⟨rfl, hcore₄, hm₄⟩
  rw [Delivery.ensures_bind, Delivery.ensures_attempt]
  refine (runs_receiveStatus hm₄ (hcore₄.trans hcore₃) hopen hfaults rfl).mono ?_ fun _ _ _ => id
  rintro result c₄ m₅ ⟨hresult, hc₄, hcore₅, hm₅⟩
  have hmoved := ensures_moved (k := k₁.answer []) hcrossed.terminal transfer.length
  rw [← hcore₅] at hmoved
  rw [Delivery.ensures_bind, Delivery.ensures_lift]
  apply (ensures_unheard_core (unheard_moved _) hmoved).mono
  rintro _ m₆ ⟨⟨rfl, -⟩, hhearing₆⟩
  rw [Delivery.ensures_bind]
  refine (ensures_emptyBounce_alone _).mono ?_ fun _ _ _ _ => id
  rintro _ delivered c₄ m₇ ⟨rfl, halike⟩
  rw [Delivery.ensures_attempt]
  refine (runs_conclude hresult (good_channel hhead drive) .interrupt).mono ?_ fun _ _ _ => id
  rintro report c₅ m₈ ⟨hended, rfl, halike'⟩
  have hhearing : m₈.hearing = m₅.hearing := (halike.trans halike').hearing.trans hhearing₆
  exact ⟨hended, (hc₂.trans (hc₃.trans hc₄)).setting, hm₅.of_hearing hhearing⟩

theorem delivers_transfer_alone (hm : Heeds l t m) (h : Ready c m.core) (hr : Relies l c)
    (hfits : transfer.Fits command span) (hbounce : transfer.length ≤ m.core.bounce.size)
    (hread : (m.core.fdc.disk.read (span.extent drive)).length = span.byteLength) :
    EndsByInterrupt l t (Operation.transfer (command.bytes drive flags) span transfer) c m := by
  obtain ⟨hsome, hgate⟩ := h.routed hr.path
  obtain ⟨channel, hchannel⟩ := Option.isSome_iff_exists.mp hsome
  obtain rfl : channel = fdcChannel := h.wired channel hchannel
  unfold Operation.transfer
  rw [EndsByInterrupt, Delivery.ensures_bind, Delivery.ensures_getThe, Delivery.ensures_bind, Delivery.ensures_attempt]
  refine (runs_agreeOnPath hm h.toSettled h.harmless).mono ?_ fun _ _ _ => id
  rintro _ c₁ m₁ ⟨hsetting, h₁, hkept, htold, hm₁⟩
  have hpath : m₁.core.fdc.nonDma = false := (h₁.told _ htold).trans (by rw [hr.path]; rfl)
  have hgate₁ : c₁.shadow.output.gate = true := by
    rw [Controller.shadow_of_setting hsetting]
    exact hgate
  have hread₁ : (m₁.core.fdc.disk.read (span.extent drive)).length = span.byteLength := by
    rw [hkept.disk]
    exact hread
  rw [hr.path, hchannel]
  refine (delivers_transferByChannel_alone hm₁ h₁ (hkept.faults ▸ h.harmless) (hr.of_setting hsetting) hpath hgate₁
    hfits (hkept.bounce ▸ hbounce) hread₁).mono ?_ fun _ _ _ _ => id
  rintro report _ c₂ m₂ ⟨hended, hsetting₂, hm₂⟩
  exact ⟨hended, hsetting₂.trans hsetting, hm₂⟩

/-- How long it takes until the motor of the selected drive runs. -/
def Controller.spinUp (c : Controller) : Nat :=
  if c.shadow.output.motorOn c.drive then 0 else Operation.startTime.toNat

variable {payload : Option Transfer} {bytes : List UInt8}

theorem ensures_undertake_alone (hm : Heeds l t m) (h : Ready c m.core) (hr : Relies l c)
    (hmotor : command.needsMotor = true)
    (hproceed : ∀ c₁ m₁, Ready c₁ m₁.core → Kept m.core m₁.core → Relies l c₁ → Heeds l (t + c.spinUp) m₁ →
      EndsByInterrupt l (t + c.spinUp) (Operation.proceed command bytes payload c.drive) c₁ m₁) :
    Operation.Ensures alone (Operation.undertake command bytes payload) (fun pass c' m' => pass.early = none ∧
      ∃ report, pass.outcome = .ok report ∧ report.endedBy = .interrupt ∧ Relies l c' ∧
        Heeds l (t + c.spinUp) m') c m := by
  unfold Operation.undertake
  refine Operation.ensures_bind.mpr ((ensures_noticeStorm_alone hr.line hm.heard.calm).mono ?_)
  rintro _ c m₁ ⟨rfl, rfl, halike⟩
  rw [Operation.ensures_bind, Operation.ensures_setPhase, Operation.ensures_bind, Operation.ensures_get,
    Operation.ensures_bind, Operation.ensures_log]
  obtain ⟨ready, hready⟩ : ∃ ready, ready = { c with phase := .ready } := ⟨_, rfl⟩
  rw [← hready]
  obtain ⟨m₂, hm₂⟩ : ∃ m₂, m₂ = (m₁.step (.log ready.base (.submitted command ready.drive))).2 := ⟨_, rfl⟩
  have halike₂ : Alike m m₂ := halike.trans (hm₂ ▸ ⟨rfl, rfl⟩)
  refine ensures_alone_call.mpr ?_
  rw [← hm₂, Program.ensures_done, Operation.ensures_bind, Delivery.ensures_run]
  have hsetting : ready.setting = c.setting := hready ▸ rfl
  have h₂ : Ready ready m₂.core := by
    rw [halike₂.core]
    exact h.carried (carried_of_setting hsetting) (h.toSettled.abides (hready ▸ .phase c .ready)) rfl
  have hspin : ready.spinUp = c.spinUp := hready ▸ rfl
  have hdrive : ready.drive = c.drive := hready ▸ rfl
  have hcarry : Delivery.Ensures alone (Operation.carryOut command bytes payload) (fun report _ c' m' =>
      report.endedBy = .interrupt ∧ Relies l c' ∧ Heeds l (t + c.spinUp) m') (fun _ _ _ _ => False) [] ready m₂ := by
    unfold Operation.carryOut Operation.readyDrive
    rw [Delivery.ensures_bind, Delivery.ensures_getThe, Delivery.ensures_bind, Delivery.ensures_operation, hmotor,
      if_pos rfl, ← hspin]
    apply (ensures_startMotor_alone (hm.alike halike₂) h₂.toLinked (hr.of_setting hsetting) ready.drive).mono
    rintro _ c₃ m₃ ⟨hturned, -, hr₃, hm₃⟩
    have h₃ : Ready c₃ m₃.core := h₂.turned hturned
    rw [Delivery.ensures_bind, Delivery.ensures_operation]
    apply (ensures_makeReceptive_alone h₃.idle h₃.harmless).mono
    rintro _ c₃ m₄ ⟨rfl, halike₄⟩
    have h₄ : Ready c₃ m₄.core := halike₄.core.symm ▸ h₃
    have hkept : Kept m.core m₄.core := by
      rw [halike₄.core, ← halike₂.core]
      exact hturned.kept
    have hrings := hproceed c₃ m₄ h₄ hkept hr₃ (hspin ▸ hm₃.alike halike₄)
    rw [← hdrive, ← hspin] at hrings
    refine Delivery.Ensures.mono hrings ?_ fun _ _ _ _ => id
    rintro report _ c₅ m₅ ⟨hended, hsetting₅, hm₅⟩
    exact ⟨hended, hr₃.of_setting hsetting₅, hm₅⟩
  refine Delivery.Ensures.mono hcarry ?_ ?_
  · rintro report _ c' m' ⟨hended, hr', hm'⟩
    exact ⟨rfl, report, rfl, hended, hr', hm'⟩
  · exact fun _ _ _ _ => False.elim

theorem ensures_complete_alone (hm : Heeds l t m) (hr : Relies l c) (report : Report) :
    Operation.Ensures alone (Operation.complete none report) (fun report' _ m' =>
      report'.endedBy = report.endedBy ∧ report'.notice = none ∧ m'.now = t) c m := by
  unfold Operation.complete
  rw [Operation.ensures_bind, Operation.ensures_setPhase, Operation.ensures_bind]
  apply (ensures_noticeStorm_alone (c := { c with phase := .done }) hr.line hm.heard.calm).mono
  rintro _ c' m' ⟨rfl, rfl, halike⟩
  rw [Operation.ensures_bind, Operation.ensures_modify]
  exact ⟨rfl, rfl, (hm.alike halike).now⟩

/-- A command that is accepted, and that the interrupt ends once it is under way. -/
theorem ensures_perform_alone (hm : Heeds l t m) (h : Ready c m.core) (hr : Relies l c)
    (hmotor : command.needsMotor = true) (hvalid : command.validate = .ok ())
    (haccept : (Operation.accept command payload).Ensures alone (fun r m' => r = .ok () ∧ Alike m m') m)
    (hproceed : ∀ c₁ m₁, Ready c₁ m₁.core → Kept m.core m₁.core → Relies l c₁ → Heeds l (t + c.spinUp) m₁ →
      EndsByInterrupt l (t + c.spinUp)
        (Operation.proceed command (command.bytes c.drive c.recording) payload c.drive) c₁ m₁) :
    Operation.Ensures alone (Operation.perform command payload) (fun r _ m' => ∃ report, r.1 = .ok report ∧
      report.endedBy = .interrupt ∧ report.notice = none ∧ m'.now = t + c.spinUp) c m := by
  unfold Operation.perform
  simp only [Operation.prepare, Operation.ensures_bind, Operation.ensures_lift]
  apply haccept.mono
  rintro _ m₁ ⟨rfl, halike⟩
  have hencode : command.encode c.drive c.recording = .ok (command.bytes c.drive c.recording) :=
    Command.encode_eq_ok_iff.mpr ⟨hvalid, rfl⟩
  have h₁ : Ready c m₁.core := halike.core.symm ▸ h
  simp only [Operation.ensures_bind, Operation.ensures_get, Operation.ensures_pure, hencode]
  refine (ensures_undertake_alone (hm.alike halike) h₁ hr hmotor fun c₂ m₂ h₂ hkept => ?_).mono ?_
  · exact hproceed c₂ m₂ h₂ (halike.core ▸ hkept)
  · rintro ⟨early, outcome, delivered⟩ c₂ m₂ ⟨hearly, report, houtcome, hended, hr₂, hm₂⟩
    obtain rfl : early = none := hearly
    obtain rfl : outcome = .ok report := houtcome
    simp only [Operation.ensures_bind, Operation.ensures_pure]
    apply (ensures_complete_alone hm₂ hr₂ report).mono
    rintro report' c₃ m₃ ⟨hended', hnotice, hnow⟩
    exact ⟨report', rfl, hended'.trans hended, hnotice, hnow⟩

/-- A command that moves the head is over when the interrupt tells of it. -/
theorem ensures_execute_alone (hm : Heeds l t m) (h : Ready c m.core) (hr : Relies l c) (hkind : command.kind = .seek)
    (hvalid : command.validate = .ok ()) : Operation.Ensures alone (Operation.execute command) (fun r _ m' =>
      ∃ report, r = .ok report ∧ report.endedBy = .interrupt ∧ report.notice = none ∧ m'.now = t + c.spinUp) c m := by
  have hplain : command.transfer? = none := by
    cases command <;> first | rfl | exact absurd hkind (by simp [Command.kind])
  have haccept : (Operation.accept command none).Ensures alone (fun r m' => r = .ok () ∧ Alike m m') m := by
    unfold Operation.accept
    rw [hplain]
    exact ⟨rfl, .refl m⟩
  have hmotor : command.needsMotor = true := by
    rw [Command.needsMotor, hkind]
    rfl
  unfold Operation.execute
  rw [Operation.ensures_bind]
  refine (ensures_perform_alone hm h hr hmotor hvalid haccept ?_).mono ?_
  · intro c₁ m₁ h₁ _ hr₁ hm₁
    have hproceed : Operation.proceed command (command.bytes c.drive c.recording) none c.drive =
        .attempt (Operation.runSeek command (command.bytes c.drive c.recording) c.drive) := by
      unfold Operation.proceed
      rw [hplain, hkind]
    rw [EndsByInterrupt, hproceed, Delivery.ensures_attempt]
    exact runs_runSeek hm₁ h₁.toSettled h₁.harmless hr₁ (h₁.routed hr₁.path).2 hkind hvalid
  · rintro ⟨_, _⟩ _ _ ⟨report, rfl, hend⟩
    exact ⟨report, rfl, hend⟩

/-- A command with a payload is over when the interrupt tells of it. -/
theorem ensures_executeWith_alone (hm : Heeds l t m) (h : Ready c m.core) (hr : Relies l c)
    (hfits : transfer.Fits command span) (hbounce : transfer.length ≤ m.core.bounce.size)
    (hread : (m.core.fdc.disk.read (span.extent c.drive)).length = span.byteLength) :
    Operation.Ensures alone (Operation.executeWith command transfer) (fun r _ m' =>
      ∃ report, r.1 = .ok report ∧ report.endedBy = .interrupt ∧ report.notice = none ∧
        m'.now = t + c.spinUp) c m := by
  have haccept : (Operation.accept command (some transfer)).Ensures alone (fun r m' => r = .ok () ∧ Alike m m') m := by
    unfold Operation.accept
    rw [hfits.data]
    refine Program.ensures_bind.mpr (ensures_alone_call.mpr ⟨?_, rfl, rfl⟩)
    exact Transfer.validate_eq_ok_iff.mpr ⟨⟨span, hfits⟩, hbounce⟩
  have hmotor : command.needsMotor = true := by
    have hdata := hfits.data
    cases command <;> first | rfl | exact absurd hdata (by simp [Command.transfer?])
  unfold Operation.executeWith
  rw [Operation.ensures_bind]
  refine (ensures_perform_alone hm h hr hmotor hfits.valid haccept ?_).mono ?_
  · intro c₁ m₁ h₁ hkept hr₁ hm₁
    have hproceed : Operation.proceed command (command.bytes c.drive c.recording) (some transfer) c.drive =
        Operation.transfer (command.bytes c.drive c.recording) span transfer := by
      unfold Operation.proceed
      rw [hfits.data]
    have hread₁ : (m₁.core.fdc.disk.read (span.extent c.drive)).length = span.byteLength := by
      rw [hkept.disk]
      exact hread
    rw [EndsByInterrupt, hproceed]
    exact delivers_transfer_alone hm₁ h₁ hr₁ hfits (hkept.bounce ▸ hbounce) hread₁
  · rintro ⟨_, _⟩ _ _ ⟨report, rfl, hend⟩
    exact ⟨report, rfl, hend⟩

end Diskette
