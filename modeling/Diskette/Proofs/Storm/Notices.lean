import Diskette.Proofs.Conduct.Requests
import Diskette.Proofs.Standing

/-!
The notice of a storm, whatever the platform answers. A report has it if the look that decides has found a storm and
no report has had it before. That is the last look at the line, or one before the command that has found a storm.
-/
namespace Diskette

variable {line : Option Line} {reported stormy : Bool} {early : Option Failure} {c c' : Controller}
  {t u : History Platform}

/-- The notice of a storm, unless it has been given. -/
def stormNotice (line : Option Line) (stormy reported : Bool) : Option Failure :=
  if stormy && !reported then line.map fun l => .interruptStorm l.irq else none

/-- What a look at the line has found, with nothing called after it if it has found the line in order. -/
def Decides (line : Option Line) (stormy : Bool) (t : History Platform) : Prop :=
  match line with
  | none => stormy = false
  | some l => ∃ before later, t = before ++ ⟨.memory (.degraded l.id), stormy⟩ :: later ∧ (stormy = false → later = [])

theorem Decides.append (h : Decides line true t) (u : History Platform) : Decides line true (t ++ u) := by
  cases line with
  | none => exact h
  | some l =>
    obtain ⟨before, later, rfl, -⟩ := h
    exact ⟨before, later ++ u, by simp, nofun⟩

/-- On a line, and the notice of a storm has been given or not. -/
abbrev Watching (line : Option Line) (reported : Bool) (c : Controller) (_ : History Platform) : Prop :=
  c.line = line ∧ c.stormReported = reported

theorem steady_watching : Steady recorded (Watching line reported) := by
  refine ⟨fun hc h => ?_, fun _ h => ⟨trivial, fun _ _ _ => h⟩⟩
  exact ⟨(Controller.line_of_wiring hc).trans h.1, (Controller.stormReported_of_wiring hc).trans h.2⟩

theorem leavable_watching : Leavable recorded (Watching line reported) where
  stance hc h := steady_watching.calm.stance hc h
  givesUp _ h := ⟨trivial, fun _ _ _ => h⟩
  takePrior h := h
  unhook h := h
  toPort h := h
  writeOutput _ c t h := by
    rw [Operation.ensures_shadowed]
    exact Program.ensures_recorded.mpr fun _ => h

theorem watching_enableDma : Operation.Keeps recorded (Watching line reported) Operation.enableDma.run := by
  refine .enableDma fun c t l h _ _ => Program.ensures_recorded.mpr fun stormy => ⟨h, fun _ _ => ?_⟩
  refine (ensures_hookLine l).mono ?_
  rintro _ _ _ ⟨prior, rfl⟩
  exact h

theorem watching_bringUp : Operation.Keeps recorded (Watching line reported) Controller.bringUp :=
  steady_watching.calm.bringUp steady_watching.enduring.reset watching_enableDma

/-- The notice that is due after a look that decides. -/
def NoticeDue (line : Option Line) (reported : Bool) (notice : Option Failure) (t : History Platform) : Prop :=
  ∃ stormy, Decides line stormy t ∧ notice = stormNotice line stormy reported

theorem ensures_noticeStorm_due (h : Watching line reported c t) :
    Operation.Ensures recorded Operation.noticeStorm
      (fun notice c' t' => Watching line reported c' t' ∧ NoticeDue line reported notice t') c t := by
  cases hline : c.line with
  | none =>
    obtain rfl : line = none := h.1.symm.trans hline
    simp only [Operation.noticeStorm, Operation.ensures_bind, Operation.ensures_get, hline]
    exact ⟨h, false, rfl, rfl⟩
  | some l =>
    obtain rfl : line = some l := h.1.symm.trans hline
    simp only [Operation.noticeStorm, Operation.ensures_bind, Operation.ensures_get, hline, Operation.ensures_lift]
    refine Program.ensures_recorded.mpr fun stormy => ?_
    rw [Program.ensures_done, Operation.ensures_ite]
    split
    case isFalse hcalm =>
      obtain rfl : stormy = false := Bool.eq_false_iff.mpr hcalm
      exact ⟨h, false, ⟨t, [], rfl, fun _ => rfl⟩, rfl⟩
    case isTrue hstormy =>
      obtain rfl : stormy = true := hstormy
      have habandon : Operation.Keeps recorded (Watching (some l) reported) (Operation.abandonLine l) :=
        leavable_watching.abandonLine leavable_watching.disableDma l
      refine Operation.ensures_bind.mpr (((habandon c (t ++ [⟨.memory (.degraded l.id), true⟩]) h).and
        (ensures_grows _)).mono ?_)
      rintro _ c' _ ⟨hc', u, rfl⟩
      refine ⟨hc', true, ⟨t, u, by simp, fun hcalm => absurd hcalm.symm Bool.false_ne_true⟩, ?_⟩
      change (if c'.stormReported then none else some (Failure.interruptStorm l.irq)) = _
      rw [hc'.2]
      cases reported <;> rfl

/-- A notice from before the command, if there is one, is due. -/
def NoticeDueEarly (line : Option Line) (reported : Bool) (early : Option Failure) (t : History Platform) : Prop :=
  early.isSome → Decides line true t ∧ early = stormNotice line true reported

theorem NoticeDue.noticeDueEarly (h : NoticeDue line reported early t) : NoticeDueEarly line reported early t := by
  intro hsome
  obtain ⟨stormy, hdecides, rfl⟩ := h
  cases stormy with
  | true => exact ⟨hdecides, rfl⟩
  | false => exact absurd hsome nofun

theorem NoticeDueEarly.append (h : NoticeDueEarly line reported early t) (u : History Platform) :
    NoticeDueEarly line reported early (t ++ u) :=
  fun hsome => ⟨(h hsome).1.append u, (h hsome).2⟩

theorem ensures_undertake_due (command : Command) (bytes : List UInt8) (transfer : Option Transfer)
    (h : Watching line reported c t) :
    Operation.Ensures recorded (Operation.undertake command bytes transfer)
      (fun pass c' t' => Watching line reported c' t' ∧ NoticeDueEarly line reported pass.early t') c t := by
  have harm : ∀ transfer, Armable recorded (Watching line reported) transfer :=
    .of_stored (fun _ h => ⟨trivial, fun _ _ _ => h⟩) fun h => ⟨trivial, fun _ _ _ => h⟩
  unfold Operation.undertake
  refine Operation.ensures_bind.mpr ((ensures_noticeStorm_due h).mono ?_)
  rintro early c₁ t₁ ⟨h₁, hdue⟩
  have hrest : Operation.Keeps recorded (Watching line reported) (do
      Operation.setPhase .ready
      Operation.log (.submitted command (← get).drive)
      (Operation.carryOut command bytes transfer).run []) := by
    refine .bind (steady_watching.calm.setPhase _) fun _ => .get_bind fun c t h => ?_
    refine Operation.Keeps.bind (steady_watching.calm.log _) (fun _ c t h => ?_) c t h
    rw [Delivery.ensures_run]
    exact steady_watching.enduring.carryOut command bytes transfer (fun t' _ => harm t') [] c t h
  have hpass : Operation.Ensures recorded _ _ c₁ t₁ := (hrest c₁ t₁ h₁).and (ensures_grows _)
  simp only [Operation.ensures_bind] at hpass ⊢
  refine hpass.mono fun _ c₂ t₂ hlog => hlog.mono fun _ c₃ t₃ hrun => hrun.mono fun _ c₄ t₄ hcarry => ?_
  refine hcarry.mono ?_
  rintro ⟨outcome, delivered⟩ c' _ ⟨hc', u, rfl⟩
  exact ⟨hc', hdue.noticeDueEarly.append u⟩

/-- A report has the notice that is due, and the driver remembers it. -/
def Noted (line : Option Line) (reported : Bool) (report : Report) (c' : Controller) (t : History Platform) : Prop :=
  ∃ stormy, Decides line stormy t ∧ report.notice = stormNotice line stormy reported ∧ c'.stormReported = (reported || stormy)

theorem ensures_takeNotice_due (h : Watching line reported c t) (hearly : NoticeDueEarly line reported early t) :
    Operation.Ensures recorded (Operation.takeNotice early)
      (fun notice c' t' => Watching line reported c' t' ∧ NoticeDue line reported notice t') c t := by
  cases early with
  | none => exact ensures_noticeStorm_due h
  | some notice =>
    obtain ⟨hdecides, hnotice⟩ := hearly rfl
    exact ⟨h, true, hdecides, hnotice⟩

/-- A notice that is due is on a line. -/
theorem reported_or_due (h : Decides line stormy t) (reported : Bool) :
    (reported || (stormNotice line stormy reported).isSome) = (reported || stormy) := by
  cases line with
  | none =>
    obtain rfl : stormy = false := h
    rfl
  | some l => cases reported <;> cases stormy <;> rfl

theorem ensures_complete_noted (report : Report) (h : Watching line reported c t)
    (hearly : NoticeDueEarly line reported early t) :
    Operation.Ensures recorded (Operation.complete early report)
      (fun report' c' t' => Noted line reported report' c' t') c t := by
  unfold Operation.complete
  have hdone : Watching line reported { c with phase := .done } t := h
  refine Operation.ensures_bind.mpr (Operation.ensures_bind.mpr ((ensures_takeNotice_due hdone hearly).mono ?_))
  rintro notice c' t' ⟨hc', stormy, hdecides, rfl⟩
  refine ⟨stormy, hdecides, rfl, ?_⟩
  change (c'.stormReported || _) = _
  rw [hc'.2]
  exact reported_or_due hdecides reported

theorem ensures_perform_noted (command : Command) (transfer : Option Transfer) (h : Watching line reported c t) :
    Operation.Ensures recorded (Operation.perform command transfer) (fun r c' t' =>
      (∀ report, r.1 = .ok report → Noted line reported report c' t') ∧
        ∀ cause, r.1 = .error cause → c'.stormReported = reported) c t := by
  unfold Operation.perform
  refine Operation.ensures_bind.mpr ((Operation.ensures_prepare (K := Watching line reported c)
    ⟨trivial, fun _ _ _ => h⟩ h).mono ?_)
  rintro (cause | bytes) c₁ t₁ ⟨rfl, h₁, -⟩
  · exact ⟨nofun, fun _ _ => h₁.2⟩
  refine Operation.ensures_bind.mpr ((ensures_undertake_due command bytes transfer h₁).mono ?_)
  rintro ⟨early, outcome, delivered⟩ c₂ t₂ ⟨h₂, hearly⟩
  cases outcome with
  | ok report =>
    refine Operation.ensures_bind.mpr ((ensures_complete_noted report h₂ hearly).mono ?_)
    rintro report' c₃ t₃ hnoted
    refine ⟨?_, nofun⟩
    rintro _ ⟨⟩
    exact hnoted
  | error cause =>
    refine Operation.ensures_bind.mpr ((steady_watching.enduring.recover command cause c₂ t₂ h₂).mono ?_)
    rintro _ c₃ t₃ h₃
    exact ⟨nofun, fun _ _ => h₃.2⟩

namespace Request

/-- Only commands have an outcome. -/
theorem ensures_respond_idle (request : Request) (h : request.command? = none) :
    Operation.Ensures recorded request.respond (fun answer _ _ => ∀ outcome, answer ≠ .outcome outcome) c t := by
  cases request with
  | execute | executeWith => cases h
  | _ => exact Operation.ensures_bind.mpr ((ensures_grows _).mono fun _ _ _ _ => nofun)

/-- The notice is in the report of a command that goes well, and nothing else gives it. -/
theorem ensures_respond_noted (request : Request) (h : Watching line reported c t) :
    Operation.Ensures recorded request.respond (fun answer c' t' =>
      (∀ report, answer.report? = some report → Noted line reported report c' t') ∧
        (answer.report? = none → c'.stormReported = reported)) c t := by
  have hcommand : ∀ {outcome : Except Failure Report} {c' : Controller} {t' : History Platform},
      ((∀ report, outcome = .ok report → Noted line reported report c' t') ∧
        ∀ cause, outcome = .error cause → c'.stormReported = reported) →
      (∀ report, (Answer.outcome outcome).report? = some report → Noted line reported report c' t') ∧
        ((Answer.outcome outcome).report? = none → c'.stormReported = reported) := by
    rintro (cause | report) c' t' ⟨hok, herror⟩
    · exact ⟨nofun, fun _ => herror cause rfl⟩
    · refine ⟨?_, nofun⟩
      rintro _ ⟨⟩
      exact hok report rfl
  have hidle : ∀ {α : Type} {op : Operation α} {answer : α → Answer}, (∀ a, (answer a).report? = none) →
      Operation.Keeps recorded (Watching line reported) op →
      Operation.Ensures recorded (do return answer (← op)) (fun answer c' t' =>
        (∀ report, answer.report? = some report → Noted line reported report c' t') ∧
          (answer.report? = none → c'.stormReported = reported)) c t := by
    intro α op answer hnone hop
    refine Operation.ensures_bind.mpr ((hop c t h).mono fun a c' t' hc' => ?_)
    exact ⟨fun report hreport => absurd ((hnone a).symm.trans hreport) nofun, fun _ => hc'.2⟩
  have hsteady : Steady recorded (Watching line reported) := steady_watching
  cases request with
  | execute command =>
    refine Operation.ensures_bind.mpr (Operation.ensures_bind.mpr ((ensures_perform_noted command none h).mono ?_))
    exact fun _ _ _ => hcommand
  | executeWith command transfer =>
    refine Operation.ensures_bind.mpr (Operation.ensures_bind.mpr
      ((ensures_perform_noted command (some transfer) h).mono ?_))
    exact fun _ _ _ => hcommand
  | enableDma => exact hidle (fun _ => rfl) watching_enableDma
  | disableDma => exact hidle (fun _ => rfl) leavable_watching.disableDma
  | reset => exact hidle (fun _ => rfl) hsteady.enduring.reset
  | selectDrive drive =>
    exact hidle (fun _ => rfl) (hsteady.writeOutput (f := fun s => { s.output with drive }) fun _ => rfl)
  | setMotor drive on =>
    exact hidle (fun _ => rfl) (hsteady.writeOutput (f := fun s => s.output.setMotor drive on) fun _ => rfl)
  | setRate rate => exact hidle (fun _ => rfl) (hsteady.setRate rate)
  | setRecording recording => exact hidle (fun _ => rfl) (hsteady.modify fun _ => rfl)
  | mainStatus => exact hidle (fun _ => rfl) (.bind hsteady.calm.mainStatus fun _ => .pure)
  | digitalInput => exact hidle (fun _ => rfl) (.bind hsteady.calm.digitalInput fun _ => .pure)
  | ps2Status => exact hidle (fun _ => rfl) (.bind hsteady.calm.ps2Status fun _ => .pure)

end Request
end Diskette
