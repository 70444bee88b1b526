import Diskette.Proofs.Conduct.Calm
import Diskette.Proofs.Standing
import Diskette.Proofs.Tenure

/-!
What becomes of the shadow of the registers. Each request changes the field that it asks for and no other; a command
may start the motor of its drive, and a storm close the gate.
-/
namespace Diskette

variable {c c' : Controller} {t : History Platform} {command : Command}

/-- A command may start the motor of the drive, and a storm on the line take the DMA path away; else both registers
stay as they are. -/
structure Command.Changes (command : Command) (c c' : Controller) (h : History Platform) : Prop where
  line : c'.line = c.line
  path : c'.path = c.path ∨ c.path = .channel ∧ c'.path = .port ∧
    ∃ line ∈ c.line, ⟨.memory (.degraded line.id), true⟩ ∈ h
  shadow : c'.shadow =
    let output := c.shadow.output
    { c.shadow with output := { output with
      motors := if command.needsMotor then output.motors.set c.drive true else output.motors
      gate := output.gate && c'.path == c.path } }

/-- What a request makes of the registers, by its answer. -/
def Request.Changes (answer : Answer) (c c' : Controller) (h : History Platform) (request : Request) : Prop :=
  let output := c.shadow.output
  match request with
  | .execute command | .executeWith command _ =>
    (answer.Accepted → command.Changes c c' h) ∧ (¬answer.Accepted → c' = c)
  | .enableDma => c'.shadow = { c.shadow with output := { output with gate := output.gate || c'.path != c.path } }
  | .disableDma => c'.shadow = { c.shadow with output := { output with gate := false } }
  | .selectDrive drive => c'.shadow = { c.shadow with output := { output with drive } }
  | .setMotor drive on => c'.shadow = { c.shadow with output := { output with motors := output.motors.set drive on } }
  | .setRate rate => c'.shadow = { c.shadow with rate }
  | _ => c'.shadow = c.shadow

theorem Controller.line_of_setting (h : c'.setting = c.setting) : c'.line = c.line := by
  have hline : c'.setting.line = c.setting.line := by rw [h]
  exact hline

namespace Command.Changes

theorem of_setting {c₁ : Controller} (h : command.Changes c c₁ t) (hc : c'.setting = c₁.setting) :
    command.Changes c c' t := by
  have hpath := Controller.path_of_setting hc
  refine ⟨(Controller.line_of_setting hc).trans h.line, ?_, ?_⟩
  · rw [hpath]
    exact h.path
  · rw [Controller.shadow_of_setting hc, hpath]
    exact h.shadow

/-- A storm that is noticed before the motor is started. -/
theorem spunUp {c₁ : Controller} (h : Weathered c c₁ t) : command.Changes c (c₁.spunUp command) t := by
  unfold Controller.spunUp
  rcases h with rfl | ⟨hpath, rfl, hstorm⟩
  · by_cases hmotor : command.needsMotor
    · rw [if_pos hmotor]
      exact ⟨rfl, .inl rfl, by simp [hmotor, DigitalOutput.setMotor]⟩
    · rw [if_neg hmotor]
      exact ⟨rfl, .inl rfl, by simp [hmotor]⟩
  · have hlost : (DataPath.port == c.path) = false := by
      rw [hpath]
      rfl
    by_cases hmotor : command.needsMotor
    · rw [if_pos hmotor]
      exact ⟨rfl, .inr ⟨hpath, rfl, hstorm⟩, by
        simp [hmotor, hlost, DigitalOutput.setMotor, Controller.unhooked, Controller.drive]⟩
    · rw [if_neg hmotor]
      exact ⟨rfl, .inr ⟨hpath, rfl, hstorm⟩, by simp [hmotor, hlost, Controller.unhooked]⟩

/-- A storm that is noticed at the end. -/
theorem weathered {c₁ : Controller} (h : command.Changes c c₁ t) (hweathered : Weathered c₁ c' t) :
    command.Changes c c' t := by
  rcases hweathered with rfl | ⟨hchannel, rfl, line, hline, hstorm⟩
  · exact h
  have hpath : c.path = .channel := by
    rcases h.path with hsame | ⟨-, hport, -⟩
    · exact hsame.symm.trans hchannel
    · exact absurd (hchannel.symm.trans hport) (by decide)
  have hlost : (DataPath.port == c.path) = false := by
    rw [hpath]
    rfl
  refine ⟨h.line, .inr ⟨hpath, rfl, line, h.line ▸ hline, hstorm⟩, ?_⟩
  simp [Controller.unhooked, h.shadow, hlost]

theorem append (h : command.Changes c c' t) (u : History Platform) : command.Changes c c' (t ++ u) := by
  refine ⟨h.line, h.path.imp_right ?_, h.shadow⟩
  rintro ⟨hchannel, hport, line, hline, hstorm⟩
  exact ⟨hchannel, hport, line, hline, List.mem_append_left u hstorm⟩

end Command.Changes

theorem ensures_complete_changes (early : Option Failure) (report : Report) {x : Controller} (h : Standing c)
    (hchanges : command.Changes x c t) : Operation.Ensures recorded (Operation.complete early report)
      (fun _ c' t' => command.Changes x c' t') c t := by
  have hdone : Standing { c with phase := .done } := h.of_setting rfl
  have htake : Operation.Ensures recorded (Operation.takeNotice early)
      (fun _ c' t' => Weathered { c with phase := .done } c' t') { c with phase := .done } t := by
    cases early with
    | none => exact ensures_noticeStorm hdone
    | some notice => exact .inl rfl
  refine Operation.ensures_bind.mpr (Operation.ensures_setPhase.mpr ?_)
  refine Operation.ensures_bind.mpr ((htake.and (ensures_grows _)).mono ?_)
  rintro notice c₁ t₁ ⟨hweathered, u, rfl⟩
  have hbefore : command.Changes x { c with phase := .done } (t ++ u) := (hchanges.append u).of_setting rfl
  exact (hbefore.weathered hweathered).of_setting rfl

theorem ensures_perform_changes (command : Command) (transfer : Option Transfer) (h : Standing c) :
    Operation.Ensures recorded (Operation.perform command transfer) (fun r c' t' =>
      ((Answer.outcome r.1).Accepted → command.Changes c c' t') ∧ (¬(Answer.outcome r.1).Accepted → c' = c)) c t := by
  have hprepare : Operation.Ensures recorded (Operation.prepare command transfer) (fun _ c' _ => c' = c) c t :=
    (Operation.ensures_prepare (K := fun _ => True) ⟨trivial, fun _ _ _ => trivial⟩ trivial).mono fun _ _ _ => And.left
  refine Operation.ensures_bind.mpr (hprepare.mono ?_)
  rintro (cause | bytes) c₁ t₁ rfl
  · exact ⟨fun haccepted => haccepted.elim, fun _ => rfl⟩
  refine Operation.ensures_bind.mpr ((ensures_undertake command bytes transfer h).mono ?_)
  rintro ⟨early, outcome, delivered⟩ c₂ t₂ ⟨hhard, c₃, hweathered, hc₂⟩
  have hchanges : command.Changes c₁ c₂ t₂ := Command.Changes.of_setting (.spunUp hweathered) hc₂
  have hstanding : Standing c₂ := ((hweathered.standing h).spunUp command).of_setting hc₂
  cases outcome with
  | ok report =>
    refine Operation.ensures_bind.mpr ((ensures_complete_changes early report hstanding hchanges).mono ?_)
    exact fun _ c' t' hc' => ⟨fun _ => hc', fun hrefused => absurd trivial hrefused⟩
  | error cause =>
    have haccepted : (Answer.outcome (.error cause)).Accepted := by
      cases cause with
      | invalidParameters cause => exact absurd hhard (by simp [Hard, Failure.causedReset])
      | _ => trivial
    refine Operation.ensures_bind.mpr ((ensures_recover command cause hstanding.outOfReset).mono ?_)
    rintro - c₄ _ ⟨hrecovered, u, rfl, -⟩
    exact ⟨fun _ => (hchanges.append u).of_setting hrecovered.restarted.setting,
      fun hrefused => absurd haccepted hrefused⟩

theorem ensures_enableDma_changes : Operation.Ensures recorded Operation.enableDma.run (fun _ c' _ =>
    c'.shadow = { c.shadow with output := { c.shadow.output with
      gate := c.shadow.output.gate || c'.path != c.path } }) c t := by
  have hsame : c.shadow = { c.shadow with output := { c.shadow.output with
      gate := c.shadow.output.gate || c.path != c.path } } := by simp
  refine ensures_enableDma.mono ?_
  rintro _ c' t' (rfl | ⟨hpath, -, prior, rfl⟩)
  · exact hsame
  have htaken : (DataPath.channel != c.path) = true := by
    cases hport : c.path with
    | port => rfl
    | channel => exact absurd hport hpath
  simp [Controller.onChannel, htaken]

theorem calm_shadow (shadow : Shadow) : Calm recorded fun c _ => c.shadow = shadow := by
  refine calm_of_footing ?_ fun _ h => ⟨trivial, fun _ _ _ => h⟩
  intro c c' t hc h
  have hshadow : c'.footing.shadow = c.footing.shadow := by rw [hc]
  exact Eq.trans hshadow h

theorem ensures_respond_changes (request : Request) (h : Standing c) :
    Operation.Ensures recorded request.respond (fun answer c' t' => request.Changes answer c c' t') c t := by
  have hcalm := calm_shadow c.shadow
  cases request with
  | execute command =>
    refine Operation.ensures_bind.mpr (Operation.ensures_bind.mpr ?_)
    exact (ensures_perform_changes command none h).mono fun _ _ _ hc' => hc'
  | executeWith command transfer =>
    refine Operation.ensures_bind.mpr (Operation.ensures_bind.mpr ?_)
    exact (ensures_perform_changes command (some transfer) h).mono fun _ _ _ hc' => hc'
  | enableDma => exact Operation.ensures_bind.mpr (ensures_enableDma_changes.mono fun _ _ _ hc' => hc')
  | disableDma =>
    refine Operation.ensures_bind.mpr ((ensures_disableDma h.hookSound).mono ?_)
    rintro - c' t' rfl
    exact rfl
  | reset =>
    refine Operation.ensures_bind.mpr ((ensures_reset h.outOfReset).mono ?_)
    exact fun _ c' t' hc' => Controller.shadow_of_setting hc'.1.setting
  | selectDrive drive => exact ⟨trivial, fun _ _ _ => rfl⟩
  | setMotor drive on => exact ⟨trivial, fun _ _ _ => rfl⟩
  | setRate rate => exact ⟨trivial, fun _ _ _ => rfl⟩
  | setRecording recording => exact Eq.refl c.shadow
  | mainStatus => exact Operation.Keeps.bind (.bind hcalm.mainStatus fun _ => .pure) (fun _ => .pure) c t rfl
  | digitalInput => exact Operation.Keeps.bind (.bind hcalm.digitalInput fun _ => .pure) (fun _ => .pure) c t rfl
  | ps2Status => exact Operation.Keeps.bind (.bind hcalm.ps2Status fun _ => .pure) (fun _ => .pure) c t rfl

theorem stands_respond (request : Request) : OperationStands request.respond := by
  intro c t h
  have hperform := stands_request request c t h
  rw [request.perform_eq] at hperform
  exact Operation.ensures_bind.mp hperform

end Diskette
