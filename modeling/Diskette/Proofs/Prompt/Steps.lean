import Diskette.Proofs.Prompt.Fifo

/-!
The steps of a command on a simulated machine that is left to itself, with the line heard. The line is armed before the
last byte goes out, the interrupt comes as soon as the window is closed, and the wait is over before it begins.
-/
namespace Diskette

open Simulated InterruptUnit

variable {α : Type} {c c' : Controller} {m m' : Simulated} {k : Core} {l : Line} {t : Nat} {bytes bs : List UInt8}

/-- The line of a driver is the one of the controller, and can be heard. The time is noted. -/
structure Simulated.Heeds (l : Line) (t : Nat) (m : Simulated) : Prop where
  now : m.now = t
  irq : m.fdc.irq = l.irq
  silent : m.faults.silent = false
  heard : Heard l m.interrupts

/-- An attempt that goes well on a machine that is left to itself. -/
abbrev Runs (a : Attempt α) (Q : α → Controller → Simulated → Prop) (c : Controller) (m : Simulated) : Prop :=
  Attempt.Ensures alone a Q (fun _ _ _ => False) c m

namespace Simulated

theorem counter_of_hearing (h : m'.hearing = m.hearing) (id : Nat) :
    m'.interrupts.memory.counter id = m.interrupts.memory.counter id :=
  congrArg (fun h => h.counters.getD id {}) h

namespace Heeds

theorem clear (h : Heeds l t m) : m.Clear := ⟨h.heard.enabled, h.heard.drained⟩

theorem of_hearing (h : Heeds l t m) (hsame : m'.hearing = m.hearing) : Heeds l t m' := by
  refine ⟨(congrArg Hearing.now hsame).trans h.now, (congrArg Hearing.irq hsame).trans h.irq,
    (congrArg Hearing.silent hsame).trans h.silent, ?_, (h.clear.of_hearing hsame).drained⟩
  exact h.heard.toAttended.of_eq (congrArg Hearing.enabled hsame) (congrArg Hearing.masked hsame)
    (congrArg Hearing.vectors hsame) (congrArg (fun h => h.counters.size) hsame)
    (congrArg FireCounter.degraded (counter_of_hearing hsame l.id))

theorem alike (h : Heeds l t m) (halike : Alike m m') : Heeds l t m' := h.of_hearing halike.hearing

/-- The counter of a line that is there, once its fires are acknowledged. -/
theorem counter_acknowledge {memory : Memory} {id : Nat} (h : id < memory.counters.size) :
    (memory.acknowledge id).counter id = (memory.counter id).acknowledge :=
  (memory.counter_modify id id _).trans (if_pos ⟨rfl, h⟩)

theorem acknowledge (h : Heeds l t m) : Heeds l t (m.step (.memory (.acknowledge l.id))).2 := by
  refine ⟨h.now, h.irq, h.silent, h.heard.toAttended.of_eq rfl rfl rfl (Array.size_modify ..) ?_, h.heard.drained⟩
  exact (congrArg FireCounter.degraded (counter_acknowledge h.heard.enrolled)).trans rfl

end Heeds

/-- A line that is acknowledged and then rung in a window is counted once when the window is closed. -/
theorem Heeds.resumed (h : Heeds l t m) {memory : Memory} {hearing : Hearing}
    (hmemory : memory = m.interrupts.memory.acknowledge l.id)
    (hhearing : hearing = { m.suppressed.hearing with counters := memory.counters })
    (hrung : m'.hearing = hearing.rung) :
    Heeds l t m'.resumed ∧ (m'.resumed.interrupts.memory.counter l.id).fired = (memory.counter l.id).fired + 1 := by
  subst hhearing
  obtain ⟨u, hu⟩ : ∃ u : InterruptUnit, u = { m'.interrupts with enabled := true } := ⟨_, rfl⟩
  have hmasked : u.masked = m.interrupts.masked := by rw [hu]; exact congrArg Hearing.masked hrung
  have hvectors : u.vectors = m.interrupts.vectors := by rw [hu]; exact congrArg Hearing.vectors hrung
  have hcounters : u.memory.counters = memory.counters := by rw [hu]; exact congrArg Hearing.counters hrung
  have hpending : u.pending = (m.interrupts.raise l.irq).pending := by
    rw [hu, raise, ← h.irq]
    exact congrArg Hearing.pending hrung
  have hcounter : u.memory.counter l.id = (m.interrupts.memory.counter l.id).acknowledge := by
    rw [← counter_acknowledge h.heard.enrolled, ← hmemory]
    exact congrArg (fun counters => counters.getD l.id {}) hcounters
  have hattended : Attended l u := by
    refine h.heard.toAttended.of_eq (by rw [hu, h.heard.enabled]) hmasked hvectors ?_ ?_
    · rw [hcounters, hmemory]
      exact Array.size_modify ..
    · rw [hcounter]
      rfl
  have hraised : u.isPending l.irq = true := by
    rw [isPending, hpending]
    exact isPending_raise_self m.interrupts l.irq
  -- Whatever else is pending was so before the window, and is masked.
  have hothers : ∀ i ∈ lines, i ≠ l.irq → ¬u.Due i := by
    rintro i hi hne ⟨hdue, hunmasked⟩
    refine h.heard.drained i hi ⟨?_, ?_⟩
    · rw [isPending, hpending] at hdue
      have hother := isPending_raise m.interrupts l.irq i
      rw [lineBit_disjoint l.irq h.heard.wired i hi hne.symm] at hother
      exact (hother.trans (Bool.or_false _)).symm.trans hdue
    · rwa [isMasked, hmasked] at hunmasked
  obtain ⟨hheard, hfired⟩ := hattended.rings hraised hothers (congrArg FireCounter.unacknowledged hcounter)
  have hresumed : m'.resumed.interrupts = u.deliver := by rw [hu]; rfl
  refine ⟨⟨?_, ?_, ?_, hresumed ▸ hheard⟩, ?_⟩
  · exact (congrArg Hearing.now hrung).trans h.now
  · exact (congrArg Hearing.irq hrung).trans h.irq
  · exact (congrArg Hearing.silent hrung).trans h.silent
  · have hbefore : u.memory.counter l.id = memory.counter l.id :=
      congrArg (fun counters => counters.getD l.id {}) hcounters
    rw [hresumed, hfired, hbefore]

end Simulated

/-- What is heard of a machine once the fires of a line are acknowledged. -/
def Simulated.acknowledged (m : Simulated) (l : Line) : Hearing :=
  { m.hearing with counters := (m.interrupts.memory.acknowledge l.id).counters }

theorem Simulated.acknowledged_of_hearing (h : m'.hearing = m.hearing) : m'.acknowledged l = m.acknowledged l := by
  have hcounters : (m'.interrupts.memory.acknowledge l.id).counters = (m.interrupts.memory.acknowledge l.id).counters :=
    congrArg (fun h => h.counters.modify l.id FireCounter.acknowledge) h
  rw [acknowledged, acknowledged, h, hcounters]

/-- To arm a line forgets its fires so far, and expects one more than it has counted. -/
theorem ensures_arm_alone (l : Line) (m : Simulated) : (Expectation.arm l).Ensures alone (fun e m' =>
    e = .armed ((m'.interrupts.memory.counter l.id).fired + 1) ∧ m'.core = m.core ∧ m'.hearing = m.acknowledged l) m :=
  Program.ensures_bind.mpr (ensures_alone_call.mpr
    (Program.ensures_bind.mpr (ensures_alone_call.mpr ⟨rfl, rfl, rfl⟩)))

/-- A command goes out that interrupts at its last byte, and the interrupt has come by the end of the window. -/
theorem runs_sendCommand (hm : Heeds l t m) (h : Core.Idle c.base m.core) (hf : m.core.faults.Harmless)
    (hline : c.line = some l) (hbytes : bytes ≠ []) (hlength : bytes.length = Order.length (bytes.headD 0))
    {load : Option Operation.ChannelLoad} {channel : ChannelState}
    (hload : (Operation.setUpChannel load).Ensures alone
      (fun _ m' => m'.core = { m.core with channel } ∧ m'.hearing = m.suppressed.hearing) m.suppressed)
    (hring : ∀ m₁ : Simulated, m₁.core = { m.core with channel }.took bytes → m₁.faults.silent = false →
      m₁.interrupts.enabled = false → (m₁.obey (.ofBytes bytes)).hearing = m₁.hearing.rung) :
    Runs (Operation.sendCommand bytes true load) (fun _ c' m' => Abides c c' ∧ Heeds l t m' ∧
      c'.expectation = .armed (m'.interrupts.memory.counter l.id).fired ∧ ∃ m₁ : Simulated,
      m₁.core = { m.core with channel }.took bytes ∧ m'.core = (m₁.obey (.ofBytes bytes)).core) c m := by
  simp only [Runs, Operation.sendCommand, Attempt.ensures_bind, Attempt.ensures_setPhase, Attempt.ensures_getThe,
    Attempt.ensures_lift, Attempt.ensures_modify, Attempt.ensures_ofExcept]
  refine ensures_window hm.heard.enabled (Program.ensures_bind.mpr (hload.mono ?_))
  rintro _ m₁ ⟨hcore₁, hhearing₁⟩
  have hexpect : Operation.expectEnd { c with phase := .sending } true = Expectation.arm l := by
    simp only [Operation.expectEnd, hline]
  have hsame : Core.Same m.core { m.core with channel } := ⟨rfl, rfl, rfl, rfl, rfl, rfl, rfl, rfl⟩
  have hidle : Core.Idle c.base { m.core with channel } := ⟨h.toOpen.same hsame h.whole, h.command⟩
  rw [hexpect]
  refine Program.ensures_bind.mpr ((ensures_arm_alone l m₁).mono ?_)
  rintro _ m₂ ⟨rfl, hcore₂, hhearing₂⟩
  rw [hcore₁] at hcore₂
  rw [acknowledged_of_hearing hhearing₁] at hhearing₂
  have hsend := ensures_send_alone (m := m₂) (hcore₂.symm ▸ hidle) (by rw [hcore₂]; exact hf.commandLimit) hbytes hlength
  refine Program.ensures_bind.mpr (hsend.mono ?_)
  rintro r m₄ ⟨rfl, m₃, hcore₃, hhearing₃, rfl⟩
  rw [hcore₂] at hcore₃
  have hhearing : m₃.hearing = m.suppressed.acknowledged l := hhearing₃.trans hhearing₂
  have hsilent : m₃.faults.silent = false := (congrArg Hearing.silent hhearing).trans hm.silent
  have hclear : m₃.interrupts.enabled = false := congrArg Hearing.enabled hhearing
  obtain ⟨hheeds, hcount⟩ := hm.resumed rfl hhearing (hring m₃ hcore₃ hsilent hclear)
  have hfired : (m₂.interrupts.memory.counter l.id).fired =
      ((m.interrupts.memory.acknowledge l.id).counter l.id).fired :=
    congrArg (fun h => (h.counters.getD l.id {}).fired) hhearing₂
  refine ⟨(Abides.phase c .sending).expect _, hheeds, ?_, m₃, hcore₃, core_resumed⟩
  rw [hcount, ← hfired]

/-- A count that has been reached is seen at the first look. -/
theorem ensures_watch_alone (hcalm : (m.interrupts.memory.counter l.id).degraded = false) (poll : Routine Bool)
    (last : Bool) :
    ((Expectation.armed (m.interrupts.memory.counter l.id).fired).watch (some l) poll last).Ensures alone
      (fun r m' => r = some .interrupt ∧ m' = (m.step (.memory (.acknowledge l.id))).2) m := by
  have hreached : ∀ n : UInt32, caughtUp n n = true := by
    intro n
    simp only [caughtUp, UInt32.sub_self]
    decide
  refine Program.ensures_bind.mpr (Program.ensures_bind.mpr (ensures_alone_call.mpr ?_))
  change Program.Ensures alone (if (m.interrupts.memory.counter l.id).degraded then _ else _) _ m
  rw [hcalm]
  refine Program.ensures_bind.mpr (ensures_alone_call.mpr ?_)
  change Program.Ensures alone
    (if caughtUp (m.interrupts.memory.counter l.id).fired (m.interrupts.memory.counter l.id).fired then _ else _) _ m
  rw [if_pos (hreached _)]
  exact Program.ensures_bind.mpr (ensures_alone_call.mpr ⟨rfl, rfl⟩)

theorem ensures_wait_alone (hcalm : (m.interrupts.memory.counter l.id).degraded = false) (poll : Routine Bool)
    (ms : Nat) : ((Expectation.armed (m.interrupts.memory.counter l.id).fired).wait (some l) poll ms).Ensures alone
      (fun r m' => r = (.interrupt, .fired) ∧ m' = (m.step (.memory (.acknowledge l.id))).2) m := by
  cases ms with
  | zero =>
    refine Program.ensures_bind.mpr ((ensures_watch_alone hcalm poll true).mono ?_)
    rintro _ _ ⟨rfl, rfl⟩
    exact ⟨rfl, rfl⟩
  | succ ms =>
    refine Program.ensures_bind.mpr ((ensures_watch_alone hcalm poll false).mono ?_)
    rintro _ _ ⟨rfl, rfl⟩
    exact ⟨rfl, rfl⟩

theorem runs_awaitEnd (hm : Heeds l t m) (hline : c.line = some l) (hpath : c.path = .channel)
    (harmed : c.expectation = .armed (m.interrupts.memory.counter l.id).fired) (ms : Nat)
    (settled : MainStatus → Bool) : Runs (Operation.awaitEnd ms settled)
      (fun endedBy c' m' => endedBy = .interrupt ∧ Abides c c' ∧ m'.core = m.core ∧ Heeds l t m') c m := by
  have hwait : (c.expectation.wait (if c.path = .channel then c.line else none)
      (do return settled (← Fifo.readStatus c.base)) ms).Ensures alone
        (fun r m' => r = (.interrupt, .fired) ∧ m' = (m.step (.memory (.acknowledge l.id))).2) m := by
    rw [if_pos hpath, hline, harmed]
    exact ensures_wait_alone hm.heard.calm _ ms
  simp only [Runs, Operation.awaitEnd, Attempt.ensures_bind, Attempt.ensures_setPhase, Attempt.ensures_getThe,
    Attempt.ensures_lift, Attempt.ensures_modify]
  apply hwait.mono
  rintro _ _ ⟨rfl, rfl⟩
  exact ⟨rfl, (Abides.phase c .awaitingCompletion).expect .fired, rfl, hm.acknowledge⟩

theorem runs_takeResult {n : ResultLength} (hm : Heeds l t m) (hcore : m.core = k.answer bs)
    (hopen : Core.Open c.base k) (hf : k.faults.Harmless) (hfewest : n.fewest ≤ bs.length)
    (hmost : bs.length ≤ min n.most maxResult) :
    Runs (Operation.takeResult n) (fun result c' m' => result.toList = bs ∧ Abides c c' ∧ m'.core = k.answer [] ∧
      Heeds l t m') c m := by
  have hlimit : k.faults.commandLimit ≠ some 0 := by simp [hf.commandLimit]
  simp only [Runs, Operation.takeResult, Attempt.ensures_bind, Attempt.ensures_setPhase, Attempt.ensures_getThe,
    Attempt.ensures_of, Attempt.ensures_pure]
  apply (ensures_receive_alone hm.clear hopen (fun _ => hf.withholdResults) hcore hfewest hmost).mono
  rintro _ m₁ ⟨⟨⟨result, rfl, hresult⟩, hcore₁⟩, hhearing₁⟩
  have hfinish := ensures_finish_alone (m := m₁) (hcore₁.symm ▸ hopen.idle) (by rw [hcore₁]; exact hlimit)
  apply hfinish.mono
  rintro _ m₂ ⟨rfl, halike⟩
  exact ⟨hresult, Abides.phase c .receivingResult, halike.core.trans hcore₁,
    (hm.of_hearing hhearing₁).alike halike⟩

theorem runs_awaitResult (hm : Heeds l t m) (hat : Core.At c.base m.core) (hready : m.core.status.dataReady = true) :
    Runs Operation.awaitResult (fun _ c' m' => c' = c ∧ m'.core = m.core ∧ Heeds l t m') c m := by
  simp only [Runs, Operation.awaitResult, Attempt.ensures_bind, Attempt.ensures_getThe, Attempt.ensures_of]
  apply (ensures_awaitResult_alone hat hready).mono
  rintro _ m₁ ⟨rfl, halike⟩
  exact ⟨trivial, halike.core, hm.alike halike⟩

theorem runs_senseHead {drive : Drive} {cylinder : UInt8} (hm : Heeds l t m) (hidle : Core.Idle c.base m.core)
    (hf : m.core.faults.Harmless) (hpending : m.core.fdc.pending = [(drive.index ||| 0x20, cylinder)]) :
    Runs Operation.senseHead (fun _ c' m' => Abides c c' ∧ Heeds l t m') c m := by
  have hobey : ∀ m₁ : Simulated, m₁.core = m.core.took [Opcode.senseInterrupt] →
      (m₁.obey (.ofBytes [Opcode.senseInterrupt])).core =
        (m.core.took [Opcode.senseInterrupt]).sensed.answer [drive.index ||| 0x20, cylinder] ∧
      (m₁.obey (.ofBytes [Opcode.senseInterrupt])).hearing = m₁.hearing := by
    intro m₁ hm₁
    have hanswer : (m.core.took [Opcode.senseInterrupt]).senseAnswer = [drive.index ||| 0x20, cylinder] := by
      simp only [Core.senseAnswer, Core.took, hpending]
    constructor
    · rw [← hanswer, ← hm₁]
      exact Core.core_senseInterrupt
    · change (m₁.obey .senseInterrupt).hearing = m₁.hearing
      dsimp only [obey]
      split <;> rfl
  have hgood : indicatesFailure .seek (drive.index ||| 0x20) 0 0 = false := by
    cases drive <;> decide
  have htransact := ensures_transact_alone (n := .exactly 2) hm.clear hidle hf
    (List.cons_ne_nil Opcode.senseInterrupt []) rfl hobey
    ((hidle.took _).same (Core.same_sensed _) rfl) rfl (Nat.le_refl 2) (Nat.le_refl 2)
  simp only [Runs, Operation.senseHead, Attempt.ensures_bind, Attempt.ensures_getThe, Attempt.ensures_of]
  apply htransact.mono
  rintro _ m₁ ⟨⟨result, rfl, hresult⟩, -, hhearing⟩
  have hst0 : result.byte 0 = drive.index ||| 0x20 := byte_of_toList hresult 0
  simp only [Attempt.ensures_modify, hst0, hgood]
  exact ⟨⟨rfl, rfl⟩, hm.of_hearing hhearing⟩

/-- A driver that relies on its line. -/
structure Relies (l : Line) (c : Controller) : Prop where
  line : c.line = some l
  path : c.path = .channel

theorem Relies.of_setting (h : Relies l c) (hc : c'.setting = c.setting) : Relies l c' := by
  have hline : c'.setting.line = c.setting.line := congrArg Controller.line hc
  exact ⟨hline.trans h.line, (Controller.path_of_setting hc).trans h.path⟩

theorem ensures_makeReceptive_alone (h : Core.Idle c.base m.core) (hf : m.core.faults.Harmless) :
    Operation.Ensures alone Operation.makeReceptive (fun _ c' m' => c' = c ∧ Alike m m') c m := by
  have hlimit : m.core.faults.commandLimit ≠ some 0 := by simp [hf.commandLimit]
  simp only [Operation.makeReceptive, Operation.mainStatus, Operation.ensures_bind, Operation.ensures_get,
    Operation.ensures_lift, Operation.ensures_ite, Operation.ensures_pure]
  apply (ensures_readStatus_alone h.toAt).mono
  rintro _ m₁ ⟨rfl, halike⟩
  rw [h.status hlimit, if_neg (by decide)]
  exact ⟨trivial, halike⟩

theorem ensures_noticeStorm_alone (hline : c.line = some l)
    (hcalm : (m.interrupts.memory.counter l.id).degraded = false) : Operation.Ensures alone Operation.noticeStorm
      (fun notice c' m' => notice = none ∧ c' = c ∧ Alike m m') c m := by
  simp only [Operation.noticeStorm, Operation.ensures_bind, Operation.ensures_get, hline]
  rw [Operation.ensures_lift]
  have hanswer : (m.step (.memory (.degraded l.id))).1 = false := hcalm
  refine ensures_alone_call.mpr ?_
  rw [Program.ensures_done, hanswer, if_neg Bool.false_ne_true]
  exact ⟨rfl, rfl, rfl, rfl⟩

/-- The motor comes up to speed, unless it runs already. -/
theorem ensures_startMotor_alone (hm : Heeds l t m) (h : Linked c m.core) (hr : Relies l c) (drive : Drive) :
    Operation.Ensures alone (Operation.startMotor drive) (fun _ c' m' => Turned c m.core c' m'.core ∧
      c'.drive = c.drive ∧ Relies l c' ∧
      Heeds l (t + if c.shadow.output.motorOn drive then 0 else Operation.startTime.toNat) m') c m := by
  simp only [Operation.startMotor, Operation.ensures_bind, Operation.ensures_get, Operation.ensures_ite,
    Operation.ensures_pure, Operation.ensures_log, Operation.ensures_lift]
  split
  · exact ⟨.refl h, trivial, hr, hm⟩
  · refine ensures_alone_call.mpr ?_
    obtain ⟨m₁, hm₁⟩ : ∃ m₁, m₁ = (m.step (.log c.base (.spinningUp drive))).2 := ⟨_, rfl⟩
    rw [← hm₁]
    have halike : Alike m m₁ := hm₁ ▸ ⟨rfl, rfl⟩
    have hlinked : Linked c m₁.core := halike.core.symm ▸ h
    have hturned := ensures_alone_core (turns_setMotor hlinked drive true)
    have hheard : Operation.Ensures alone (Operation.setMotor drive true)
        (fun _ c' m' => Relies l c' ∧ m'.hearing = m.hearing) c m₁ := by
      unfold Operation.setMotor
      rw [Operation.ensures_shadowed]
      refine Program.ensures_bind.mpr ((ensures_output_register hlinked.toAt _).mono ?_)
      rintro _ _ ⟨m₂, halike₂, rfl⟩
      have hout : m₂.fdc.inReset = false := by
        change m₂.core.fdc.inReset = false
        rw [halike₂.core]
        exact hlinked.inReset
      refine ⟨⟨hr.line, hr.path⟩, ?_⟩
      exact (hearing_writeOutput hout).trans (halike.trans halike₂).hearing
    apply (Program.Ensures.and hturned hheard).mono
    rintro ⟨_, c₁⟩ m₂ ⟨⟨hturned, hdrive⟩, hrelies, hhearing⟩
    refine ensures_alone_call.mpr ⟨halike.core ▸ hturned, hdrive, hrelies, ?_⟩
    have hheeds := hm.of_hearing hhearing
    exact ⟨congrArg (· + Operation.startTime.toNat) hheeds.now, hheeds.irq, hheeds.silent, hheeds.heard⟩

theorem runs_agreeOnPath (hm : Heeds l t m) (h : Settled c m.core) (hf : m.core.faults.Harmless) :
    Runs Operation.agreeOnPath (fun _ c' m' => c'.setting = c.setting ∧ Settled c' m'.core ∧ Kept m.core m'.core ∧
      c'.specified = some c.path ∧ Heeds l t m') c m := by
  have hcore : Runs Operation.agreeOnPath (fun _ c' m' => c'.setting = c.setting ∧ Settled c' m'.core ∧
      Kept m.core m'.core ∧ c'.specified = some c.path) c m := by
    apply (ensures_alone_core (goes_agreeOnPath h hf)).mono
    rintro ⟨_ | _, c'⟩ m' hend <;> exact hend
  have hheard : Runs Operation.agreeOnPath (fun _ _ m' => Heeds l t m') c m := by
    unfold Operation.agreeOnPath
    rw [Runs, Attempt.ensures_bind, Attempt.ensures_getThe, Attempt.ensures_ite]
    split
    · exact hm
    · have htells := tells_standardSpecify c.path c.drive c.recording
      have hvalid : (Command.standardSpecify c.path).validate = .ok () := rfl
      have hquiet : ∀ m₁ : Simulated, (m₁.obey (.ofBytes ((Command.standardSpecify c.path).bytes c.drive
          c.recording))).hearing = m₁.hearing := by
        intro m₁
        rw [Command.ofBytes_bytes hvalid]
        rfl
      generalize hsent : (Command.standardSpecify c.path).bytes c.drive c.recording = bytes at htells hquiet
      have hopen : Core.Open c.base ((m.core.took bytes).onPath c.path) :=
        ⟨⟨h.present, h.base_eq, h.room⟩, h.inReset, rfl⟩
      simp only [Operation.specify, Attempt.ensures_bind, Attempt.ensures_get, Attempt.ensures_of, hsent]
      apply (ensures_transact_alone (n := .exactly 0) hm.clear h.idle hf htells.ne_nil htells.length_eq
        (fun m₁ hm₁ => ⟨htells.obeyed hm₁, hquiet m₁⟩) hopen rfl (Nat.le_refl 0) (Nat.le_refl 0)).mono
      rintro _ m₁ ⟨⟨result, rfl, -⟩, -, hhearing⟩
      exact hm.of_hearing hhearing
  apply (hcore.and hheard).mono
  · rintro _ c' m' ⟨⟨hsetting, hsettled, hkept, htold⟩, hheeds⟩
    exact ⟨hsetting, hsettled, hkept, htold, hheeds⟩
  · exact fun _ _ _ hfalse => hfalse.1

end Diskette
