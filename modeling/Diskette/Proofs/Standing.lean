import Diskette.Proofs.Failing
import Diskette.Proofs.Run

/-!
What is so of every controller between two requests: it is out of reset, and the driver's handler is
installed just while the DMA path is taken. A storm takes the path away, and nothing else does that
is not asked for.
-/
namespace Diskette

variable {base : UInt16} {α : Type} {x c c' : Controller} {t : History Platform}

structure Standing (c : Controller) : Prop where
  outOfReset : c.shadow.output.resetAsserted = false
  hooked : c.hooked ↔ c.path = .channel
  lined : c.path = .channel → c.line.isSome
  cleared : c.hooked = false → c.prior = none

theorem Standing.of_setting (h : Standing c) (hc : c'.setting = c.setting) : Standing c' := by
  have hshadow : c'.shadow = c.shadow := Controller.shadow_of_setting hc
  have hpath : c'.path = c.path := Controller.path_of_setting hc
  have hhooked : c'.setting.hooked = c.setting.hooked := by rw [hc]
  have hprior : c'.setting.prior = c.setting.prior := by rw [hc]
  have hline : c'.setting.line = c.setting.line := by rw [hc]
  simp only [Controller.setting] at hhooked hprior hline
  exact ⟨hshadow ▸ h.outOfReset, hhooked ▸ hpath ▸ h.hooked, hline ▸ hpath ▸ h.lined,
    hhooked ▸ hprior ▸ h.cleared⟩

/-- A controller off the DMA path. -/
def Controller.unhooked (c : Controller) : Controller :=
  { c with
    shadow := { c.shadow with output := { c.shadow.output with gate := false } }
    hooked := false, prior := none, path := .port }

/-- A controller on the DMA path, with the handler that its own one has displaced. -/
def Controller.onChannel (prior : Option Handler) (c : Controller) : Controller :=
  { c with
    shadow := { c.shadow with output := { c.shadow.output with gate := true } }
    hooked := true, prior, path := .channel }

theorem Standing.unhooked (h : Standing c) : Standing c.unhooked :=
  ⟨h.outOfReset, by simp [Controller.unhooked], by simp [Controller.unhooked], fun _ => rfl⟩

theorem Standing.onChannel {prior : Option Handler} (h : Standing c) (hline : c.line.isSome) :
    Standing (c.onChannel prior) :=
  ⟨h.outOfReset, by simp [Controller.onChannel], fun _ => hline, nofun⟩

theorem Standing.hookSound (h : Standing c) : c.HookSound :=
  ⟨fun hhooked => h.lined (h.hooked.mp hhooked), h.cleared⟩

abbrev OperationStands (op : Operation α) : Prop :=
  Operation.Keeps recorded (fun c _ => Standing c) op

theorem stands_of_holds {op : Operation α}
    (h : ∀ x, x.shadow.output.resetAsserted = false → OperationHolds x op) : OperationStands op :=
  fun c t hc => (h c.setting hc.outOfReset c t rfl).mono fun _ _ _ => hc.of_setting

theorem stands_of_stays {op : Operation α} (h : OperationStays op) : OperationStands op :=
  stands_of_holds fun _ _ => holds_of_stays h

theorem stands_lift (p : Routine α) : OperationStands (liftM p : Operation α) :=
  stands_of_holds fun _ _ => holds_lift p

theorem ensures_grows (op : Operation α) :
    Operation.Ensures recorded op (fun _ _ t' => ∃ u, t' = t ++ u) c t :=
  ((Program.only_true (StateT.run op c)).recorded t).mono fun _ _ ⟨u, hu, _⟩ => ⟨u, hu⟩

theorem ensures_maskIfHooked :
    Operation.Ensures recorded Operation.maskIfHooked (fun _ c' _ => c' = c) c t := by
  simp only [Operation.maskIfHooked, Operation.ensures_bind, Operation.ensures_get]
  split
  · rw [Operation.ensures_lift]
    exact yields_always _ rfl t
  · exact rfl

theorem ensures_closeGate : Operation.Ensures recorded Operation.closeGate (fun _ c' _ => c' =
      { c with shadow := { c.shadow with output := { c.shadow.output with gate := false } } })
    c t := by
  simp only [Operation.closeGate, Operation.ensures_bind, Operation.ensures_get,
    Operation.ensures_ite, Operation.ensures_shadowed, Operation.ensures_pure]
  split
  · exact Program.ensures_recorded.mpr fun _ => rfl
  · rename_i hgate
    obtain ⟨⟨base, ⟨motors, gate, resetAsserted, drive⟩, rate⟩⟩ := c
    obtain rfl : gate = false := by simpa using hgate
    rfl

theorem ensures_unbind (h : c.HookSound) :
    Operation.Ensures recorded Operation.unbind (fun _ c' _ => c' = { c with hooked := false, prior := none })
      c t := by
  simp only [Operation.unbind, Operation.ensures_bind, Operation.ensures_get]
  split
  · rw [Operation.ensures_bind, Operation.ensures_takePrior, Operation.ensures_bind, Operation.ensures_lift]
    exact yields_always _ rfl t
  · rename_i hnone
    have hunhooked := Controller.hooked_eq_false h.lined hnone
    have hprior := h.cleared hunhooked
    obtain ⟨shadow, line, channel, features, status, cylinder, recording, version, phase,
      expectation, hooked, prior⟩ := c
    obtain rfl : hooked = false := hunhooked
    obtain rfl : prior = none := hprior
    rfl

theorem ensures_disableDma (h : c.HookSound) :
    Operation.Ensures recorded Operation.disableDma (fun _ c' _ => c' = c.unhooked) c t := by
  unfold Operation.disableDma
  refine Operation.ensures_bind.mpr (ensures_maskIfHooked.mono ?_)
  rintro - c₁ t₁ rfl
  refine Operation.ensures_bind.mpr (ensures_closeGate.mono ?_)
  rintro - c₂ t₂ hc₂
  have hsound : c₂.HookSound := by
    rw [hc₂]
    exact ⟨h.lined, h.cleared⟩
  refine Operation.ensures_bind.mpr ((ensures_unbind hsound).mono ?_)
  rintro - c₃ t₃ hc₃
  have hend : { c₃ with path := .port } = c₁.unhooked := by
    rw [hc₃, hc₂]
    rfl
  simp only [Operation.logPolled, Operation.ensures_bind, Operation.ensures_get,
    Operation.ensures_ite, Operation.ensures_log, Operation.ensures_pure,
    Operation.ensures_modify]
  split
  · exact yields_always _ hend t₃
  · exact hend

theorem ensures_hookLine (line : Line) :
    Operation.Ensures recorded (Operation.hookLine line)
      (fun _ c' _ => ∃ prior, c' = c.onChannel prior) c t := by
  simp only [Operation.hookLine, Operation.ensures_bind, Operation.ensures_lift,
    Operation.ensures_shadowed, Operation.ensures_modify, Operation.ensures_log]
  refine Program.ensures_recorded.mpr fun _ => Program.ensures_recorded.mpr fun _ => ?_
  change (Platform.uninterrupted (Platform.bind line.irq (.counting line))).Ensures recorded _ _
  refine (yields_always _ trivial _).mono fun prior t₁ _ => ?_
  refine Program.ensures_recorded.mpr fun _ => Program.ensures_recorded.mpr fun _ => ?_
  exact Program.ensures_recorded.mpr fun _ => ⟨prior, rfl⟩

/-- The path is taken, or all is left as it is. -/
theorem ensures_enableDma : Operation.Ensures recorded Operation.enableDma.run
    (fun _ c' _ => c' = c ∨ c.path ≠ .channel ∧ c.line.isSome ∧ ∃ prior, c' = c.onChannel prior) c t := by
  simp only [Attempt.ensures_run, Operation.enableDma, Attempt.ensures_bind, Attempt.ensures_get,
    Attempt.ensures_ite, Attempt.ensures_throw]
  split
  · simp
  split
  · simp
  · rename_i line hline
    simp only [Attempt.ensures_bind, Attempt.ensures_ite, Attempt.ensures_throw,
      Attempt.ensures_pure, Attempt.ensures_lift, Attempt.ensures_operation]
    refine Program.ensures_recorded.mpr fun stormy => ?_
    rw [Program.ensures_done]
    split
    · simp
    split
    · simp
    · rename_i hpath
      refine (ensures_hookLine line).mono ?_
      rintro _ c' t' ⟨prior, rfl⟩
      exact .inr ⟨hpath, by rw [hline]; rfl, prior, rfl⟩

theorem stands_enableDma : OperationStands Operation.enableDma.run := by
  intro c t h
  refine ensures_enableDma.mono ?_
  rintro _ c' _ (rfl | ⟨-, hline, prior, rfl⟩)
  · exact h
  · exact h.onChannel hline

theorem Controller.holdsLine_iff (h : Standing c) : c.holdsLine ↔ c.path = .channel := by
  simp [holdsLine, h.hooked]

/-- A storm may have taken the path away before the command. -/
def Weathered (c c' : Controller) (t : History Platform) : Prop :=
  c' = c ∨ c.path = .channel ∧ c' = c.unhooked ∧
    ∃ line ∈ c.line, ⟨.memory (.degraded line.id), true⟩ ∈ t

theorem Weathered.standing (hc : Standing c) (h : Weathered c c' t) : Standing c' := by
  rcases h with rfl | ⟨-, rfl, -⟩
  · exact hc
  · exact hc.unhooked

theorem Weathered.phase (h : Weathered c c' t) : c'.phase = c.phase := by
  rcases h with rfl | ⟨-, rfl, -⟩
  · rfl
  · rfl

theorem Weathered.expectation (h : Weathered c c' t) : c'.expectation = c.expectation := by
  rcases h with rfl | ⟨-, rfl, -⟩
  · rfl
  · rfl

theorem Weathered.append (h : Weathered c c' t) (u : History Platform) :
    Weathered c c' (t ++ u) := by
  rcases h with rfl | ⟨hpath, rfl, line, hline, hmem⟩
  · exact .inl rfl
  · exact .inr ⟨hpath, rfl, line, hline, List.mem_append_left u hmem⟩

/-- What a look at the counters leads to. -/
theorem ensures_noticeStorm (h : Standing c) :
    Operation.Ensures recorded Operation.noticeStorm (fun _ c' t' => Weathered c c' t') c t := by
  simp only [Operation.noticeStorm, Operation.ensures_bind, Operation.ensures_get]
  split
  · exact .inl rfl
  · rename_i line hline
    rw [Operation.ensures_bind, Operation.ensures_lift]
    refine Program.ensures_recorded.mpr fun stormy => ?_
    rw [Program.ensures_done, Operation.ensures_ite]
    split
    case isFalse => exact .inl rfl
    case isTrue hstormy =>
      obtain rfl : stormy = true := hstormy
      simp only [Operation.abandonLine, Operation.ensures_bind, Operation.ensures_get,
        Operation.ensures_ite, Operation.ensures_log, Operation.ensures_pure]
      split
      case isFalse => exact .inl rfl
      case isTrue hholds =>
        refine Program.ensures_recorded.mpr fun _ => ?_
        rw [Program.ensures_done]
        apply ((ensures_disableDma h.hookSound).and (ensures_grows _)).mono
        rintro - c₁ t₁ ⟨rfl, u, rfl⟩
        exact .inr ⟨(Controller.holdsLine_iff h).mp hholds, rfl, line, hline, by simp⟩

/-- The motor of the drive runs, if the command needs it. -/
def Controller.spunUp (command : Command) (c : Controller) : Controller :=
  if command.needsMotor then
    { c with shadow := { c.shadow with output := c.shadow.output.setMotor c.drive true } }
  else c

theorem DigitalOutput.setMotor_of_on {r : DigitalOutput} {drive : Drive} (h : r.motorOn drive) :
    r.setMotor drive true = r := by
  obtain ⟨⟨a, b, c, d⟩, gate, resetAsserted, selected⟩ := r
  cases drive <;> simp_all [motorOn, Motors.on, setMotor, Motors.set]

theorem Controller.outOfReset_spunUp (command : Command) (h : Standing c) :
    (c.spunUp command).shadow.output.resetAsserted = false := by
  unfold spunUp
  split <;> exact h.outOfReset

theorem ensures_readyDrive (command : Command) :
    Operation.Ensures recorded (Operation.readyDrive command c.drive)
      (fun _ c' _ => c' = c.spunUp command) c t := by
  unfold Operation.readyDrive Controller.spunUp
  split
  · simp only [Operation.startMotor, Operation.ensures_bind, Operation.ensures_get,
      Operation.ensures_ite, Operation.ensures_pure, Operation.ensures_log, Operation.ensures_lift,
      Operation.setMotor, Operation.ensures_shadowed]
    split
    · rename_i hon
      rw [DigitalOutput.setMotor_of_on hon]
    · refine Program.ensures_recorded.mpr fun _ => Program.ensures_recorded.mpr fun _ => ?_
      exact Program.ensures_recorded.mpr fun _ => rfl
  · rfl

theorem ensures_carryOut (command : Command) (bytes : List UInt8) (transfer : Option Transfer)
    (h : Standing c) :
    Operation.Ensures recorded ((Operation.carryOut command bytes transfer).run [])
      (fun r c' _ => Hard r.1 ∧ c'.setting = (c.spunUp command).setting) c t := by
  have hreset : (c.spunUp command).setting.shadow.output.resetAsserted = false :=
    Controller.outOfReset_spunUp command h
  have hcarry : Delivery.Ensures recorded (Operation.carryOut command bytes transfer)
      (fun _ _ => Holds (c.spunUp command).setting)
      (fun cause _ => Broken (c.spunUp command).setting cause) [] c t := by
    unfold Operation.carryOut
    rw [Delivery.ensures_bind, Delivery.ensures_getThe, Delivery.ensures_bind,
      Delivery.ensures_operation]
    apply (ensures_readyDrive command).mono
    rintro - c₁ t₁ rfl
    refine Delivery.Keeps.bind (.operation (holds_makeReceptive hreset)) (fun _ => ?_) [] _ t₁ rfl
    split
    · exact holds_transfer _ _ _
    · split
      · exact (holds_runSeek _ _ _).delivery
      · exact (holds_runImmediate _ _).delivery
  rw [Delivery.ensures_run]
  exact hcarry.mono (fun _ _ _ _ hc => ⟨trivial, hc⟩) fun _ _ _ _ hc => hc

/-- A command under way keeps the setting that a storm and the spin-up have left; what breaks it off
calls for a reset. -/
theorem ensures_undertake (command : Command) (bytes : List UInt8) (transfer : Option Transfer)
    (h : Standing c) :
    Operation.Ensures recorded (Operation.undertake command bytes transfer)
      (fun pass c' t' => Hard pass.outcome ∧
        ∃ c₁, Weathered c c₁ t' ∧ c'.setting = (c₁.spunUp command).setting) c t := by
  unfold Operation.undertake
  refine Operation.ensures_bind.mpr ((ensures_noticeStorm h).mono ?_)
  rintro early c₁ t₁ hweathered
  have hc₁ : Standing { c₁ with phase := .ready } := (hweathered.standing h).of_setting rfl
  rw [Operation.ensures_bind, Operation.ensures_setPhase, Operation.ensures_bind,
    Operation.ensures_get, Operation.ensures_bind, Operation.ensures_log]
  refine Program.ensures_recorded.mpr fun _ => ?_
  rw [Program.ensures_done, Operation.ensures_bind]
  have hsetting : (({ c₁ with phase := .ready } : Controller).spunUp command).setting =
      (c₁.spunUp command).setting := by
    unfold Controller.spunUp
    split <;> rfl
  apply ((ensures_carryOut command bytes transfer hc₁).and (ensures_grows _)).mono
  rintro ⟨outcome, delivered⟩ c' t' ⟨⟨hhard, hc'⟩, u, rfl⟩
  exact ⟨hhard, c₁, (hweathered.append _).append u, hc'.trans hsetting⟩

def maskCalls (channel : Option UInt8) : History Platform :=
  channel.toList.map fun number => ⟨.channel number .mask, ()⟩

theorem ensures_maskChannel : Operation.Ensures recorded Operation.maskChannel
    (fun _ c' t' => c' = c ∧ t' = t ++ maskCalls c.channel) c t := by
  simp only [Operation.maskChannel, Operation.ensures_bind, Operation.ensures_get]
  split
  · rename_i channel hchannel
    rw [Operation.ensures_lift]
    exact Program.ensures_recorded.mpr fun _ => ⟨rfl, by rw [hchannel]; rfl⟩
  · rename_i hchannel
    exact ⟨rfl, by rw [hchannel]; exact (List.append_nil t).symm⟩

/-- The state of the driver after a failed command. -/
structure Recovered (c c' : Controller) : Prop where
  restarted : Restarted c c'
  phase : c'.phase = .faulted

/-- What is called to recover from a failure. -/
def RecoveryCalls (command : Command) (cause : Failure) (c : Controller) (t : History Platform) :
    Prop :=
  ∃ u, t = ⟨.log c.base (.failed command cause), ()⟩ :: maskCalls c.channel ++
    ⟨.log c.base .resetting, ()⟩ :: u ∧ ResetCalls c.shadow u

theorem ensures_recover (command : Command) (cause : Failure)
    (hc : c.shadow.output.resetAsserted = false) :
    Operation.Ensures recorded (Operation.recover command cause) (fun _ c' t' => Recovered c c' ∧
      ∃ u, t' = t ++ u ∧ RecoveryCalls command cause c u) c t := by
  unfold Operation.recover
  rw [Operation.ensures_bind, Operation.ensures_log]
  refine Program.ensures_recorded.mpr fun _ => ?_
  rw [Program.ensures_done]
  refine Operation.ensures_bind.mpr (ensures_maskChannel.mono ?_)
  rintro - c₁ t₁ ⟨rfl, rfl⟩
  rw [Operation.ensures_bind, Operation.ensures_modify]
  have hreset := ensures_reset (c := { c₁ with expectation := .idle })
    (t := t ++ [⟨.log c₁.base (.failed command cause), ()⟩] ++ maskCalls c₁.channel) hc
  refine Operation.ensures_bind.mpr (hreset.mono ?_)
  rintro - c₂ t₂ ⟨hrestarted, -, u, rfl, hu⟩
  refine ⟨⟨⟨hrestarted.setting, hrestarted.expectation, hrestarted.specified⟩, rfl⟩, ?_⟩
  exact ⟨_, by simp [Controller.base], u, rfl, hu⟩

theorem stands_noticeStorm : OperationStands Operation.noticeStorm :=
  fun _ _ h => (ensures_noticeStorm h).mono fun _ _ _ hweathered => hweathered.standing h

theorem Standing.spunUp (command : Command) (h : Standing c) : Standing (c.spunUp command) := by
  unfold Controller.spunUp
  split
  · exact ⟨h.outOfReset, h.hooked, h.lined, h.cleared⟩
  · exact h

theorem stands_undertake (command : Command) (bytes : List UInt8) (transfer : Option Transfer) :
    OperationStands (Operation.undertake command bytes transfer) := by
  intro c t h
  refine (ensures_undertake command bytes transfer h).mono ?_
  rintro _ _ _ ⟨-, c₁, hweathered, hsetting⟩
  exact ((hweathered.standing h).spunUp command).of_setting hsetting

theorem stands_complete (early : Option Failure) (report : Report) :
    OperationStands (Operation.complete early report) := by
  refine .bind (stands_of_stays (stays_setPhase _)) fun _ => ?_
  have hnotice : OperationStands (Operation.takeNotice early) := by
    cases early with
    | none => exact stands_noticeStorm
    | some notice => exact .pure
  refine .bind hnotice fun _ => ?_
  exact .bind (stands_of_stays (stays_modify (by exact fun _ => rfl))) fun _ => .pure

theorem stands_perform (command : Command) (transfer : Option Transfer) :
    OperationStands (Operation.perform command transfer) := by
  intro c t h
  unfold Operation.perform
  have hprepare : Operation.Ensures recorded (Operation.prepare command transfer) _ c t :=
    Operation.ensures_prepare (K := fun _ => True) ⟨trivial, fun _ _ _ => trivial⟩ trivial
  refine Operation.ensures_bind.mpr (hprepare.mono ?_)
  rintro (cause | bytes) c₁ t₁ ⟨rfl, -, -⟩
  · exact h
  refine Operation.ensures_bind.mpr ((stands_undertake command bytes transfer c₁ t₁ h).mono ?_)
  rintro ⟨early, outcome, delivered⟩ c₂ t₂ hc₂
  cases outcome with
  | ok report => exact Operation.Keeps.bind (stands_complete early report) (fun _ => .pure) c₂ t₂ hc₂
  | error cause =>
    refine Operation.ensures_bind.mpr ((ensures_recover command cause hc₂.outOfReset).mono ?_)
    rintro - c₄ t₄ ⟨hrecovered, -⟩
    exact hc₂.of_setting hrecovered.restarted.setting

theorem stands_shadowed {change : Shadow → Routine Shadow}
    (h : ∀ s, Yields (change s) fun s' => s'.output.resetAsserted = s.output.resetAsserted) :
    OperationStands (Operation.shadowed change) := by
  intro c t hc
  rw [Operation.ensures_shadowed]
  exact (h c.shadow t).mono fun _ _ hs => ⟨hs.trans hc.outOfReset, hc.hooked, hc.lined, hc.cleared⟩

theorem yields_writeOutput (s : Shadow) (output : DigitalOutput) :
    Yields (s.writeOutput output) fun s' => s'.output = output :=
  yields_bind fun _ => yields_done rfl

theorem stands_writeOutput {f : Shadow → DigitalOutput}
    (hf : ∀ s, (f s).resetAsserted = s.output.resetAsserted) :
    OperationStands (Operation.shadowed fun s => s.writeOutput (f s)) :=
  stands_shadowed fun s t => (yields_writeOutput s (f s) t).mono fun _ _ hs =>
    (congrArg DigitalOutput.resetAsserted hs).trans (hf s)

theorem stands_setRate (rate : DataRate) : OperationStands (Operation.setRate rate) := by
  have hrate : ∀ s : Shadow, Yields (s.setRate rate) fun s' =>
      s'.output.resetAsserted = s.output.resetAsserted :=
    fun s => yields_bind fun _ => yields_done rfl
  exact stands_shadowed hrate

theorem stands_execute (command : Command) : OperationStands (Operation.execute command) :=
  .bind (stands_perform command none) fun _ => .pure

theorem stands_executeWith (command : Command) (transfer : Transfer) :
    OperationStands (Operation.executeWith command transfer) :=
  .bind (stands_perform command (some transfer)) fun _ => .pure

theorem stands_reset : OperationStands Operation.reset := stands_of_holds fun _ => holds_reset

theorem stands_disableDma : OperationStands Operation.disableDma := by
  intro c t h
  apply (ensures_disableDma h.hookSound).mono
  rintro - c' t' rfl
  exact h.unhooked

theorem stands_digitalInput : OperationStands Operation.digitalInput := by
  refine .get_bind fun c t h => ?_
  rw [Operation.ensures_ite]
  split
  · exact stands_lift _ c t h
  · exact h

theorem stands_ps2Status : OperationStands Operation.ps2Status := by
  refine .get_bind fun c t h => ?_
  rw [Operation.ensures_ite]
  split
  · exact Operation.Keeps.bind (stands_lift _) (fun _ => .bind (stands_lift _) fun _ => .pure) c t h
  · exact h

theorem stands_request (request : Request) : OperationStands request.perform := by
  cases request with
  | execute command => exact .bind (stands_execute command) fun _ => .pure
  | executeWith command transfer => exact .bind (stands_executeWith command transfer) fun _ => .pure
  | reset => exact stands_reset
  | enableDma => exact .bind stands_enableDma fun _ => .pure
  | disableDma => exact stands_disableDma
  | selectDrive drive => exact stands_writeOutput (f := fun s => { s.output with drive }) fun _ => rfl
  | setMotor drive on =>
    exact stands_writeOutput (f := fun s => s.output.setMotor drive on) fun _ => rfl
  | setRate rate => exact stands_setRate rate
  | setRecording recording => exact .modify fun c _ h => ⟨h.outOfReset, h.hooked, h.lined, h.cleared⟩
  | mainStatus => exact .bind (stands_of_stays stays_mainStatus) fun _ => .pure
  | digitalInput => exact .bind stands_digitalInput fun _ => .pure
  | ps2Status => exact .bind stands_ps2Status fun _ => .pure

theorem yields_classify (placement : Placement) :
    Yields (Controller.classify placement) Standing := by
  refine yields_bind fun a => yields_bind fun b => yields_bind fun input t => ?_
  refine Program.ensures_bind.mpr ((yields_writeOutput _ _ t).mono fun shadow t' hs => ?_)
  have hreset : shadow.output.resetAsserted = false := congrArg DigitalOutput.resetAsserted hs
  have hrest : ∀ irq channel features, Standing
      { shadow, line := irq, channel, features } := fun _ _ _ => ⟨hreset, by simp, nofun, fun _ => rfl⟩
  refine yields_bind (fun _ => yields_bind fun readBack => yields_bind fun line => ?_) t'
  exact yields_done (hrest line _ _)

theorem yields_probe (placement : Placement) :
    Yields (Controller.probe placement) fun found => ∀ c ∈ found, Standing c := by
  refine yields_bind fun status => yields_ite ?_ ?_
  · exact yields_bind fun _ => yields_done (by simp)
  · intro t
    refine Program.ensures_bind.mpr ((yields_classify placement t).mono fun c _ hc => ?_)
    simpa using hc

theorem stands_bringUp : OperationStands Controller.bringUp := by
  have hunready : OperationStands Controller.resetUnready :=
    .bind (stands_of_stays stays_mainStatus) fun _ =>
      .ite (fun _ => .bind (stands_of_stays (stays_log _)) fun _ => stands_reset) fun _ => .pure
  have hchannel : OperationStands Controller.chooseChannel := by
    refine .get_bind fun c t h => ?_
    rw [Operation.ensures_ite]
    split
    · refine Operation.Keeps.bind stands_enableDma (fun r => ?_) c t h
      cases r with
      | ok => exact .pure
      | error cause => exact stands_of_stays (stays_log _)
    · exact h
  exact .bind hunready fun _ => .bind hchannel fun _ =>
    .get_bind fun c t h => stands_of_stays (stays_log _) c t h

theorem yields_discover (placement : Placement) :
    Yields (Controller.discover placement) fun found => ∀ c ∈ found, Standing c := by
  intro t
  refine Program.ensures_bind.mpr ((yields_probe placement t).mono ?_)
  rintro (_ | c) t₁ hc
  · exact fun _ => nofun
  · refine Program.ensures_bind.mpr (Program.Ensures.mono (stands_bringUp c t₁ (hc c rfl)) ?_)
    rintro ⟨_, c'⟩ t₂ hc'
    simpa using hc'

theorem yields_act {controller : Option Controller} (a : Act)
    (h : ∀ c ∈ controller, Standing c) :
    Yields (a.program base controller) fun controller' => ∀ c ∈ controller', Standing c := by
  cases a with
  | probe irq channel => exact yields_probe _
  | discover irq channel => exact yields_discover _
  | ask request =>
    cases controller with
    | none => exact yields_done (by simp)
    | some c =>
      intro t
      refine Program.ensures_bind.mpr (Program.Ensures.mono (stands_request request c t (h c rfl)) ?_)
      rintro ⟨_, c'⟩ t' hc'
      simpa using hc'
  | release =>
    cases controller with
    | none => exact yields_done (by simp)
    | some c => exact yields_bind fun _ => yields_done (by simp)

theorem Run.standing {histories : List (History Platform)} {controller : Option Controller}
    (h : Run base histories controller) : ∀ c ∈ controller, Standing c :=
  h.invariant fun a _ _ _ hc hexec => hexec.recorded (yields_act a hc [])

end Diskette
