import Diskette.Interrupt.Wait
import Diskette.Proofs.Execution
import Mathlib.Logic.Function.Iterate

/-!
One interrupt line and those who watch it. The line fires while time goes by, as often as it will, and its handler
counts; the foreground arms, waits and acknowledges. Around them is a platform of which nothing is known. What is
called on by the handler, and what is acknowledged, is noted in its order.
-/
namespace Diskette

inductive Line.Event
  | fired
  | ended (irq : UInt8)
  | counted
  | masked (irq : UInt8)
  | acknowledged
  deriving DecidableEq, Repr

/-- What comes of a fire, whether it degrades the line or not. -/
def Line.aftermath (irq : UInt8) (masking : Bool) : List Line.Event :=
  [.ended irq, .counted] ++ if masking then [.masked irq] else []

theorem Line.count_fired_service (events : List Line.Event) (irq : UInt8) (masking : Bool) :
    List.count .fired (events ++ [Event.fired] ++ aftermath irq masking) = events.count .fired + 1 := by
  cases masking <;> simp [aftermath]

/-- The platform as it is, the counters, and what has happened to the line. -/
structure Scene (ω : Type) where
  world : ω
  memory : Memory
  events : List Line.Event

namespace Scene

variable {ω : Type}

def note (s : Scene ω) (e : Line.Event) : Scene ω := { s with events := s.events ++ [e] }

/-- All fires of the line so far. -/
def fires (s : Scene ω) : Nat := s.events.count .fired

def serviceStep : (c : Service.Call) → Scene ω → Service.Reply c × Scene ω
  | .endOfInterrupt irq, s => ((), s.note (.ended irq))
  | .mask irq, s => ((), s.note (.masked irq))
  | .countFire id, s =>
    let (stormy, memory) := s.memory.countFire id
    (stormy, { s with memory }.note .counted)

/-- The scene as the handler sees it. -/
def service : Machine Service (Scene ω) := ⟨serviceStep⟩

end Scene

/-- A line on a platform, and how it fires there. -/
structure FiringLine (ω : Type) where
  line : Line
  platform : Machine Platform ω
  /-- How often the line fires in a delay, from what the delay leads to. -/
  fires : ω → Nat

namespace FiringLine

variable {ω : Type} (w : FiringLine ω)

def counter (s : Scene ω) : FireCounter := s.memory.counter w.line.id

/-- The line fires, and its handler runs. -/
def fire (s : Scene ω) : Scene ω := ((Handler.counting w.line).serve.run Scene.service (s.note .fired)).2

def fireTimes (count : Nat) (s : Scene ω) : Scene ω := w.fire^[count] s

/-- A call on the memory. -/
def remember (c : Memory.Call) (s : Scene ω) : Scene ω :=
  let called := { s with memory := (s.memory.step c).2 }
  if c = .acknowledge w.line.id then called.note .acknowledged else called

/-- Time goes by. -/
def elapse (ms : UInt32) (s : Scene ω) : Scene ω :=
  let world := (w.platform.step (.delay ms) s.world).2
  w.fireTimes (w.fires world) { s with world }

def step : (c : Platform.Call) → Scene ω → Platform.Reply c × Scene ω
  | .delay ms, s => ((), w.elapse ms s)
  | .memory c, s => ((s.memory.step c).1, w.remember c s)
  | c, s =>
    let (reply, world) := w.platform.step c s.world
    (reply, { s with world })

def machine : Machine Platform (Scene ω) := ⟨w.step⟩

end FiringLine

/-- A line under watch: what the foreground expects of it, and where both of them are. -/
structure WatchedLine (ω : Type) where
  expectation : Expectation
  /-- The fires there had been when it was armed last. -/
  armedAt : Nat
  scene : Scene ω

namespace WatchedLine

/-- A fire, or something that the foreground does about its line. -/
inductive Step
  | fire
  | acknowledge
  | arm
  | disarm
  /-- A wait on the line, or without one. -/
  | wait (given : Bool) (poll : Routine Bool) (ms : Nat)

end WatchedLine

namespace FiringLine

variable {ω : Type} (w : FiringLine ω)

/-- The line as a wait is given it, if it is. -/
def passed (given : Bool) : Option Line := if given then some w.line else none

def perform (v : WatchedLine ω) : WatchedLine.Step → WatchedLine ω
  | .fire => { v with scene := w.fire v.scene }
  | .acknowledge => { v with scene := (w.line.acknowledge.run w.machine v.scene).2 }
  | .arm =>
    let armed := (Expectation.arm w.line).run w.machine v.scene
    ⟨armed.1, v.scene.fires, armed.2⟩
  | .disarm => { v with expectation := .idle }
  | .wait given poll ms =>
    let ended := (v.expectation.wait (w.passed given) poll ms).run w.machine v.scene
    { v with expectation := ended.1.2, scene := ended.2 }

end FiringLine

/-- The hardware is asked. -/
def Expectation.ask (poll : Routine Bool) : Routine (Option WaitEnd) := return if ← poll then some .polled else none

/-- An armed look at a line first asks if it is healthy, and then for its count. -/
theorem Expectation.watch_armed (expected : UInt32) (line : Line) (poll : Routine Bool) (last : Bool) :
    (armed expected).watch (some line) poll last =
      .call (.memory (.degraded line.id)) fun degraded =>
        if degraded then ask poll else
          .call (.memory (.fired line.id)) fun count =>
            if caughtUp count expected then
              .call (.memory (.acknowledge line.id)) fun _ => .done (some .interrupt)
            else if last then ask poll else .done none := by
  simp only [watch, trusted, Line.degraded, Platform.memory, Program.call_bind, Program.done_bind]
  congr 1
  funext degraded
  cases degraded with
  | true => rfl
  | false => rfl

/-- What every call keeps is kept in a run. -/
theorem Program.run_keeps {I : Interface} {α σ : Type} {m : Machine I σ} {K : σ → Prop}
    (hstep : ∀ c s, K s → K (m.step c s).2) (p : Program I α) {s : σ} (hs : K s) : K (p.run m s).2 := by
  induction p generalizing s with
  | done a => exact hs
  | call c next ih => exact ih _ (hstep c s hs)

theorem Program.history_bind {I : Interface} {α β σ : Type} (m : Machine I σ) (p : Program I α) (f : α → Program I β)
    (s : σ) : (p >>= f).history m s = p.history m s ++ (f (p.run m s).1).history m (p.run m s).2 := by
  induction p generalizing s with
  | done a => rfl
  | call c next ih => exact congrArg (_ :: ·) (ih _ _)

namespace FiringLine

variable {ω : Type} {w : FiringLine ω} {s : Scene ω}

/-- The line has its counter. -/
def Enrolled (w : FiringLine ω) (s : Scene ω) : Prop := w.line.id < s.memory.counters.size

/-- A fire is counted once its interrupt has ended, and the one that degrades the line masks it. -/
theorem fire_eq (w : FiringLine ω) (s : Scene ω) : w.fire s =
    { s with
      memory := (s.memory.countFire w.line.id).2
      events := s.events ++ [.fired] ++ Line.aftermath w.line.irq (w.counter s).fire.1 } := by
  have hfire : (w.counter s).fire.1 = (s.memory.countFire w.line.id).1 := rfl
  rw [hfire]
  cases hstormy : (s.memory.countFire w.line.id).1 <;>
    simp [fire, Handler.serve, Service.endOfInterrupt, Service.countFire, Service.mask, Program.run, Scene.service,
      Scene.serviceStep, Scene.note, Line.aftermath, hstormy]

/-- A condition on the counter of a line and on what has happened to it that its handler keeps. -/
structure FireKeeps (irq : UInt8) (K : FireCounter → List Line.Event → Prop) : Prop where
  fire : ∀ c events, K c events → K c.fire.2 (events ++ [.fired] ++ Line.aftermath irq c.fire.1)

/-- It is kept by an acknowledgement, too. -/
structure Keeps (irq : UInt8) (K : FireCounter → List Line.Event → Prop) : Prop extends FireKeeps irq K where
  acknowledge : ∀ c events, K c events → K c.acknowledge (events ++ [.acknowledged])

variable {K : FireCounter → List Line.Event → Prop}

/-- The condition holds of a line that has its counter. -/
structure Holds (w : FiringLine ω) (K : FireCounter → List Line.Event → Prop) (s : Scene ω) : Prop where
  enrolled : w.Enrolled s
  holds : K (w.counter s) s.events

theorem holds_of {s' : Scene ω} {c : FireCounter} (h : w.Enrolled s)
    (hsize : s.memory.counters.size ≤ s'.memory.counters.size) (hcounter : s'.memory.counter w.line.id = c)
    (hK : K c s'.events) : w.Holds K s' := by
  constructor
  · exact Nat.lt_of_lt_of_le h hsize
  · rwa [FiringLine.counter, hcounter]

theorem Holds.fire (hK : FireKeeps w.line.irq K) (h : w.Holds K s) : w.Holds K (w.fire s) := by
  have henrolled : w.line.id < s.memory.counters.size := h.enrolled
  have hcounter : (s.memory.countFire w.line.id).2.counter w.line.id = (w.counter s).fire.2 :=
    (s.memory.counter_modify _ _ _).trans (if_pos ⟨rfl, henrolled⟩)
  have hsize : (s.memory.countFire w.line.id).2.counters.size = s.memory.counters.size := Array.size_modify ..
  rw [fire_eq]
  exact holds_of h.enrolled (Nat.le_of_eq hsize.symm) hcounter (hK.fire _ _ h.holds)

theorem Holds.fireTimes (hK : FireKeeps w.line.irq K) (count : Nat) (h : w.Holds K s) :
    w.Holds K (w.fireTimes count s) := by
  induction count generalizing s with
  | zero => exact h
  | succ count ih => exact ih (h.fire hK)

theorem Holds.elapse (hK : FireKeeps w.line.irq K) (ms : UInt32) (h : w.Holds K s) : w.Holds K (w.elapse ms s) := by
  have hworld : w.Holds K { s with world := (w.platform.step (.delay ms) s.world).2 } := ⟨h.enrolled, h.holds⟩
  exact hworld.fireTimes hK _

theorem remember_acknowledge (w : FiringLine ω) (s : Scene ω) : w.remember (.acknowledge w.line.id) s =
    { s with memory := s.memory.acknowledge w.line.id, events := s.events ++ [.acknowledged] } := if_pos rfl

theorem counter_acknowledge (h : w.Enrolled s) :
    w.counter (w.remember (.acknowledge w.line.id) s) = (w.counter s).acknowledge := by
  rw [remember_acknowledge]
  exact (s.memory.counter_modify _ _ _).trans (if_pos ⟨rfl, h⟩)

theorem Holds.remember (hK : Keeps w.line.irq K) (c : Memory.Call) (h : w.Holds K s) : w.Holds K (w.remember c s) := by
  by_cases hown : c = .acknowledge w.line.id
  · subst hown
    have hK' := hK.acknowledge _ _ h.holds
    rw [← counter_acknowledge h.enrolled] at hK'
    have hsize : (s.memory.acknowledge w.line.id).counters.size = s.memory.counters.size := Array.size_modify ..
    rw [remember_acknowledge] at hK' ⊢
    exact holds_of h.enrolled (Nat.le_of_eq hsize.symm) rfl hK'
  · rw [FiringLine.remember, if_neg hown]
    cases c with
    | acknowledge id =>
      have hsize : (s.memory.acknowledge id).counters.size = s.memory.counters.size := Array.size_modify ..
      have hid : ¬(id = w.line.id ∧ w.line.id < s.memory.counters.size) := fun hboth => hown (congrArg _ hboth.1)
      have hcounter : (s.memory.acknowledge id).counter w.line.id = w.counter s :=
        (s.memory.counter_modify _ _ _).trans (if_neg hid)
      exact holds_of h.enrolled (Nat.le_of_eq hsize.symm) hcounter h.holds
    | createLine irq =>
      exact holds_of h.enrolled (by simp [Memory.step]) (s.memory.counter_createLine irq w.line.id) h.holds
    | _ => exact ⟨h.enrolled, h.holds⟩

theorem Holds.step (hK : Keeps w.line.irq K) (c : Platform.Call) (h : w.Holds K s) :
    w.Holds K (w.machine.step c s).2 := by
  cases c with
  | delay ms => exact h.elapse hK.toFireKeeps ms
  | memory c => exact h.remember hK c
  | _ => exact ⟨h.enrolled, h.holds⟩

/-- What the fires and the acknowledgements of a line keep is kept by whatever runs beside it. -/
theorem Holds.run {α : Type} (hK : Keeps w.line.irq K) (p : Routine α) (h : w.Holds K s) :
    w.Holds K (p.run w.machine s).2 :=
  p.run_keeps (fun _ _ hs => hs.step hK _) h

theorem Holds.perform (hK : Keeps w.line.irq K) {v : WatchedLine ω} (step : WatchedLine.Step) (h : w.Holds K v.scene) :
    w.Holds K (w.perform v step).scene := by
  cases step with
  | fire => exact h.fire hK.toFireKeeps
  | acknowledge => exact h.run hK _
  | arm => exact h.run hK _
  | disarm => exact h
  | wait given poll ms => exact h.run hK _

theorem Holds.steps (hK : Keeps w.line.irq K) {v : WatchedLine ω} (steps : List WatchedLine.Step)
    (h : w.Holds K v.scene) : w.Holds K (steps.foldl w.perform v).scene := by
  induction steps generalizing v with
  | nil => exact h
  | cons step steps ih => exact ih (h.perform hK step)

end FiringLine

end Diskette
