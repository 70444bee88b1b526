import Diskette.Proofs.Passage
import Diskette.Proofs.Run

/-!
The time that a controller is in use, from its discovery on: whatever is asked of it, and whatever
goes on in between. Each request is remembered with its answer, and with what was before and after it.
-/
namespace Diskette

/-- What comes of a request. -/
inductive Answer
  | nothing
  | outcome (r : Except Failure Report)
  | enabled (r : Except Failure Unit)

namespace Answer

def report? : Answer → Option Report
  | outcome (.ok report) => some report
  | _ => none

/-- The answer to a command that was not turned down for what it asked. -/
def Accepted : Answer → Prop
  | outcome (.error (.invalidParameters _)) => False
  | outcome _ => True
  | _ => False

end Answer

def Request.respond : Request → Operation Answer
  | execute command => do return .outcome (← Operation.execute command)
  | executeWith command transfer => do return .outcome (← Operation.executeWith command transfer).1
  | enableDma => do return .enabled (← Operation.enableDma.run)
  | request => do
    request.perform
    return .nothing

/-- The answer is all that is left out. -/
theorem Request.perform_eq (request : Request) : request.perform = (do let _ ← request.respond) := by
  cases request <;> simp [perform, respond]

/-- How a controller is found. -/
inductive Opening
  | probe | discover

def Opening.find (placement : Placement) : Opening → Routine (Option Controller)
  | probe => Controller.probe placement
  | discover => Controller.discover placement

/-- A request with its answer, and what it has found and left. -/
structure Stage (σ : Type) where
  request : Request
  answer : Answer
  before : Controller × σ
  after : Controller × σ
  moments : List (Moment Platform σ)

variable {σ : Type} {follows : σ → (c : Platform.Call) → Platform.Reply c → σ → Prop}
  {stirs : σ → σ → Prop}

namespace Stage

/-- The stage is a run of its request. -/
def Runs (follows : σ → (c : Platform.Call) → Platform.Reply c → σ → Prop) (stage : Stage σ) : Prop :=
  Passage follows (stage.request.respond.run stage.before.1) stage.before.2 stage.moments
    (stage.answer, stage.after.1) stage.after.2

/-- What was called and answered. -/
def history (stage : Stage σ) : History Platform := stage.moments.map (·.exchange)

/-- The states that its calls were made in, between those before and after it. -/
def states (stage : Stage σ) : List σ :=
  stage.before.2 :: (stage.moments.map (·.state) ++ [stage.after.2])

end Stage

/-- What becomes of a controller and of what is around it. -/
inductive Tenure (follows : σ → (c : Platform.Call) → Platform.Reply c → σ → Prop)
    (stirs : σ → σ → Prop) (x : Controller × σ) : List (Stage σ) → Controller × σ → Prop
  | start : Tenure follows stirs x [] x
  /-- Something has happened in between. -/
  | stir {stages : List (Stage σ)} {c : Controller} {s s' : σ} :
      Tenure follows stirs x stages (c, s) → stirs s s' → Tenure follows stirs x stages (c, s')
  | ask {stages : List (Stage σ)} {c c' : Controller} {s s' : σ} {answer : Answer}
      {moments : List (Moment Platform σ)} (request : Request) :
      Tenure follows stirs x stages (c, s) →
      Passage follows (request.respond.run c) s moments (answer, c') s' →
      Tenure follows stirs x (stages ++ [⟨request, answer, (c, s), (c', s'), moments⟩]) (c', s')

namespace Tenure

variable {x y : Controller × σ} {stages : List (Stage σ)}

theorem runs (h : Tenure follows stirs x stages y) : ∀ stage ∈ stages, stage.Runs follows := by
  induction h with
  | start => simp
  | stir _ _ ih => exact ih
  | ask request _ hpassage ih =>
    intro stage hstage
    rcases List.mem_append.mp hstage with hold | hlast
    · exact ih stage hold
    · obtain rfl := List.mem_singleton.mp hlast
      exact hpassage

/-- What each call leads on to, and whatever goes on in between, is led on to throughout. -/
theorem pairwise {R : σ → σ → Prop} (hrefl : ∀ s, R s s) (htrans : ∀ a b c, R a b → R b c → R a c)
    (hcall : ∀ s c r s', follows s c r s' → R s s') (hstir : ∀ s s', stirs s s' → R s s')
    (h : Tenure follows stirs x stages y) :
    (x.2 :: (stages.flatMap Stage.states ++ [y.2])).Pairwise R := by
  induction h with
  | start => simp [hrefl]
  | @stir stages c s s' _ hs ih =>
    have hlast : [s, s'].Pairwise R := by simp [hstir s s' hs]
    have hboth := pairwise_meet (l := x.2 :: stages.flatMap Stage.states) htrans ih hlast
    exact hboth.sublist (by simp)
  | @ask stages c c' s s' answer moments request _ hpassage ih =>
    obtain ⟨hpairwise, hlater⟩ := hpassage.pairwise hrefl htrans hcall
    have hstage := pairwise_meet (l := x.2 :: stages.flatMap Stage.states) htrans ih
      (List.pairwise_cons.mpr ⟨hlater, hpairwise⟩)
    have hlast : (s' :: [s']).Pairwise R := by simp [hrefl]
    have hboth := pairwise_meet (l := x.2 :: stages.flatMap Stage.states ++ s :: moments.map (·.state))
      htrans (by simpa using hstage) hlast
    simpa [Stage.states] using hboth

end Tenure
end Diskette
