import Diskette.Proofs.Storm.Notices
import Diskette.Proofs.Storm.Operations

/-!
Commands in a storm, and everything else that is asked of a controller. What finds its line degraded before it leaves
the line, and ends by polling.
-/
namespace Diskette.Exposure

variable {line : Option Line} {stormed flagged : Prop} {c c' : Controller} {x y : Exposure}

/-- A controller that does not hold its line is off it, once that may be degraded. -/
theorem Attached.off_of_free (h : Attached line flagged c x) (hstormy : x.stormy line)
    (hfree : ¬c.holdsLine) : c.OffLine := by
  obtain ⟨l, hl, hdegraded⟩ : ∃ l, line = some l ∧ x.degraded l.id := by
    cases line with
    | none => exact absurd hstormy nofun
    | some l => exact ⟨l, rfl, hstormy⟩
  simp only [Controller.holdsLine, Bool.or_eq_true, decide_eq_true_eq, not_or] at hfree
  have hunhooked : c.hooked = false := by simpa using hfree.2
  refine ⟨?_, hunhooked, h.cleared hunhooked, ?_⟩
  · cases hpath : c.path with
    | port => rfl
    | channel => exact absurd hpath hfree.1
  · exact (h.gated l hl (.inr hdegraded)).resolve_left hfree.1

/-- A degraded line is left, if it was not left before. -/
theorem ensures_abandonLine (h : Attached line flagged c x) (hstormy : x.stormy line) (l : Line) :
    Operation.Ensures (sparing line stormed) (Operation.abandonLine l) (fun _ c' y =>
      Attached line flagged c' y ∧ c'.OffLine) c x := by
  have hflagged : Attached line True c x := ⟨h.line_eq, h.hooked, h.lined, h.cleared, h.gated, fun _ => hstormy⟩
  simp only [Operation.abandonLine, Operation.ensures_bind, Operation.ensures_get, Operation.ensures_ite,
    Operation.ensures_pure]
  split
  case isFalse hfree => exact ⟨h, h.off_of_free hstormy hfree⟩
  case isTrue =>
    have hsteady : Steady (sparing line stormed) (Attached line True) := steady_attached
    refine (hsteady.calm.log _ c x hflagged).mono ?_
    rintro _ c₁ x₁ h₁
    refine (ensures_disableDma h₁).mono ?_
    rintro _ c₂ x₂ ⟨rfl, hlasts⟩
    exact ⟨.offLine .unhooked h₁.line_eq fun _ => hlasts (h₁.stormy trivial), .unhooked⟩

theorem ensures_noticeStorm (h : Attached line flagged c x) :
    Operation.Ensures (sparing line stormed) Operation.noticeStorm
      (fun _ c' y => Attached line flagged c' y ∧ (x.stormy line → c'.OffLine)) c x := by
  cases hline : c.line with
  | none =>
    obtain rfl : line = none := h.line_eq.symm.trans hline
    simp only [Operation.noticeStorm, Operation.ensures_bind, Operation.ensures_get, hline]
    exact ⟨h, fun hstormy => absurd hstormy Bool.false_ne_true⟩
  | some l =>
    obtain rfl : line = some l := h.line_eq.symm.trans hline
    simp only [Operation.noticeStorm, Operation.ensures_bind, Operation.ensures_get, hline, Operation.ensures_lift]
    refine (ensures_degraded spares_memory l).mono ?_
    rintro _ y ⟨rfl, hstirred⟩
    have hy : Attached (some l) flagged c y := h.stirred hstirred
    rw [Operation.ensures_ite]
    split
    case isFalse hcalm => exact ⟨hy, fun hstormy => absurd hstormy hcalm⟩
    case isTrue hstormy =>
      refine Operation.ensures_bind.mpr ((ensures_abandonLine hy (hstirred.stays hstormy) l).mono ?_)
      rintro _ c' z ⟨hz, hoff⟩
      exact ⟨hz, fun _ => hoff⟩

theorem ensures_undertake (command : Command) (bytes : List UInt8) (t : Option Transfer)
    (h : Attached line stormed c x) :
    Operation.Ensures (sparing line stormed) (Operation.undertake command bytes t) (fun pass c' y =>
      Attached line stormed c' y ∧
        (stormed → c'.OffLine ∧ ∀ report, pass.outcome = .ok report → report.endedBy = .polling)) c x := by
  unfold Operation.undertake
  refine Operation.ensures_bind.mpr ((ensures_noticeStorm h).mono ?_)
  rintro early c₁ x₁ ⟨h₁, hnoticed⟩
  have hoff : stormed → c₁.OffLine := fun hs => hnoticed (h.stormy hs)
  -- From here on the wiring stays as it is, and a storm stays a storm.
  have hsteady := steady_wired line stormed stormed c₁.wiring
  refine Operation.ensures_bind.mpr ((hsteady.calm.setPhase .ready c₁ x₁ ⟨h₁, rfl⟩).mono ?_)
  rintro _ c₂ x₂ hc₂
  rw [Operation.ensures_bind, Operation.ensures_get, Operation.ensures_bind]
  refine (hsteady.calm.log _ c₂ x₂ hc₂).mono ?_
  rintro _ c₃ x₃ ⟨hc₃, hwiring⟩
  have hrun : Operation.Ensures (sparing line stormed) ((Operation.carryOut command bytes t).run [])
      (fun _ c' y => Attached line stormed c' y ∧ c'.wiring = c₁.wiring) c₃ x₃ := by
    rw [Delivery.ensures_run]
    have harm := armable_wired line stormed stormed c₁.wiring
    exact hsteady.enduring.carryOut command bytes t (fun t' _ => harm t') [] c₃ x₃ ⟨hc₃, hwiring⟩
  have hpolls : Operation.Ensures recorded ((Operation.carryOut command bytes t).run [])
      (fun r _ _ => stormed → ∀ report, r.1 = .ok report → report.endedBy = .polling) c₃ [] := by
    by_cases hs : stormed
    · have hpath : c₃.path = .port := ((hoff hs).of_wiring hwiring).path
      rw [Delivery.ensures_run]
      refine (Operation.polls_carryOut command bytes t [] c₃ [] hpath).mono ?_ ?_
      · rintro report _ _ _ hends - _ ⟨⟩
        exact hends
      · rintro _ _ _ _ - - _ ⟨⟩
    · exact (ensures_grows (t := []) _).mono fun _ _ _ _ hs' => absurd hs' hs
  rw [Operation.ensures_bind]
  refine (Operation.Ensures.yields (c := c₃) (t := [])
    (Q := fun r _ => stormed → ∀ report, r.1 = .ok report → report.endedBy = .polling) hrun hpolls).mono ?_
  rintro ⟨outcome, delivered⟩ c' y ⟨hends, hc', hwiring'⟩
  exact ⟨hc', fun hs => ⟨(hoff hs).of_wiring hwiring', hends hs⟩⟩

theorem ensures_takeNotice (early : Option Failure) (h : Attached line stormed c x) (hoff : stormed → c.OffLine) :
    Operation.Ensures (sparing line stormed) (Operation.takeNotice early)
      (fun _ c' y => Attached line stormed c' y ∧ (stormed → c'.OffLine)) c x := by
  cases early with
  | none =>
    refine (ensures_noticeStorm h).mono ?_
    rintro _ c' y ⟨hy, hnoticed⟩
    exact ⟨hy, fun hs => hnoticed (h.stormy hs)⟩
  | some notice => exact ⟨h, hoff⟩

theorem ensures_complete (early : Option Failure) (report : Report) (h : Attached line stormed c x)
    (hoff : stormed → c.OffLine) :
    Operation.Ensures (sparing line stormed) (Operation.complete early report) (fun r c' y =>
      Attached line stormed c' y ∧ (stormed → c'.OffLine) ∧ r.endedBy = report.endedBy) c x := by
  unfold Operation.complete
  have hdone : Attached line stormed { c with phase := .done } x :=
    steady_attached.calm.setPhase (E := sparing line stormed) .done c x h
  rw [Operation.ensures_bind, Operation.ensures_setPhase, Operation.ensures_bind]
  refine (ensures_takeNotice early hdone fun hs => (hoff hs).of_wiring rfl).mono ?_
  rintro notice c' y ⟨hc', hoff'⟩
  refine ⟨⟨hc'.line_eq, hc'.hooked, hc'.lined, hc'.cleared, hc'.gated, hc'.stormy⟩, fun hs => ?_, rfl⟩
  exact ⟨(hoff' hs).path, (hoff' hs).hooked, (hoff' hs).prior, (hoff' hs).gate⟩

/-- What comes of a command that finds its line degraded. -/
structure Answered (outcome : Except Failure Report) (c' : Controller) : Prop where
  polled : ∀ report, outcome = .ok report → report.endedBy = .polling
  off : (∀ cause, outcome ≠ .error (.invalidParameters cause)) → c'.OffLine

theorem ensures_perform (command : Command) (t : Option Transfer) (h : Attached line stormed c x) :
    Operation.Ensures (sparing line stormed) (Operation.perform command t)
      (fun r c' y => Attached line stormed c' y ∧ (stormed → Answered r.1 c')) c x := by
  unfold Operation.perform
  have hprepare : Operation.Ensures (sparing line stormed) (Operation.prepare command t)
      (fun r c' y => c' = c ∧ Attached line stormed c y ∧ _) c x :=
    Operation.ensures_prepare (K := Attached line stormed c)
      (steady_attached.calm.plain (by trivial) h) h
  refine Operation.ensures_bind.mpr (hprepare.mono ?_)
  rintro (cause | bytes) c₁ x₁ ⟨rfl, h₁, -⟩
  · exact ⟨h₁, fun _ => ⟨nofun, fun haccepted => absurd rfl (haccepted cause)⟩⟩
  refine Operation.ensures_bind.mpr ((ensures_undertake command bytes t h₁).mono ?_)
  rintro ⟨early, outcome, delivered⟩ c₂ x₂ ⟨h₂, hstormed⟩
  cases outcome with
  | ok report =>
    refine Operation.ensures_bind.mpr ((ensures_complete early report h₂ fun hs => (hstormed hs).1).mono ?_)
    rintro r c₃ x₃ ⟨h₃, hoff, hends⟩
    refine ⟨h₃, fun hs => ⟨?_, fun _ => hoff hs⟩⟩
    rintro _ ⟨⟩
    exact hends.trans ((hstormed hs).2 report rfl)
  | error cause =>
    have hsteady := steady_wired line stormed stormed c₂.wiring
    refine Operation.ensures_bind.mpr ((hsteady.enduring.recover command cause c₂ x₂ ⟨h₂, rfl⟩).mono ?_)
    rintro _ c₃ x₃ ⟨h₃, hwiring⟩
    exact ⟨h₃, fun hs => ⟨nofun, fun _ => (hstormed hs).1.of_wiring hwiring⟩⟩

/-- What comes of any request that finds the line degraded. -/
structure Responded (answer : Answer) (c' : Controller) : Prop where
  polled : ∀ report, answer.report? = some report → report.endedBy = .polling
  off : answer.Accepted → c'.OffLine

theorem Responded.of_idle {answer : Answer} (h : ∀ outcome, answer ≠ .outcome outcome) : Responded answer c' := by
  cases answer with
  | outcome outcome => exact absurd rfl (h outcome)
  | _ => exact ⟨nofun, False.elim⟩

theorem Responded.of_outcome {outcome : Except Failure Report} (h : Answered outcome c') :
    Responded (.outcome outcome) c' := by
  cases outcome with
  | ok report =>
    refine ⟨?_, fun _ => h.off nofun⟩
    rintro _ ⟨⟩
    exact h.polled report rfl
  | error cause =>
    refine ⟨nofun, fun haccepted => h.off ?_⟩
    rintro _ ⟨⟩
    exact haccepted

theorem serviceable_attached : Serviceable (sparing line stormed) (Attached line stormed) := by
  refine steady_attached.serviceable (fun _ h => ?_) (fun _ _ h => ensures_enableDma h) fun c x h => ?_
  · exact ⟨h.line_eq, h.hooked, h.lined, h.cleared, h.gated, h.stormy⟩
  · refine (ensures_disableDma h).mono ?_
    rintro _ _ y ⟨rfl, hlasts⟩
    exact .offLine .unhooked h.line_eq fun hs => hlasts (h.stormy hs)

theorem ensures_respond (request : Request) (h : Attached line stormed c x) :
    Operation.Ensures (sparing line stormed) request.respond
      (fun answer c' y => Attached line stormed c' y ∧ (stormed → Responded answer c')) c x := by
  have hidle : request.command? = none → Operation.Ensures (sparing line stormed) request.respond
      (fun answer c' y => Attached line stormed c' y ∧ (stormed → Responded answer c')) c x := by
    intro hnone
    have hkeeps := serviceable_attached.respond request (by simp [hnone]) c x h
    refine (Operation.Ensures.yields (t := []) hkeeps (request.ensures_respond_idle hnone)).mono ?_
    rintro answer c' y ⟨hanswer, hc'⟩
    exact ⟨hc', fun _ => .of_idle hanswer⟩
  cases request with
  | execute command =>
    refine Operation.ensures_bind.mpr (Operation.ensures_bind.mpr ((ensures_perform command none h).mono ?_))
    rintro ⟨outcome, _⟩ c' y ⟨hc', hanswered⟩
    exact ⟨hc', fun hs => .of_outcome (hanswered hs)⟩
  | executeWith command t =>
    refine Operation.ensures_bind.mpr (Operation.ensures_bind.mpr ((ensures_perform command (some t) h).mono ?_))
    rintro ⟨outcome, _⟩ c' y ⟨hc', hanswered⟩
    exact ⟨hc', fun hs => .of_outcome (hanswered hs)⟩
  | _ => exact hidle rfl

end Diskette.Exposure
