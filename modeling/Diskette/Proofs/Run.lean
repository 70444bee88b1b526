import Diskette.Proofs.Execution

/-!
Runs of the driver at one register window: whatever is asked of it, in whatever order, and whatever
the platform answers.
-/
namespace Diskette

/-- What may be asked of a controller. -/
inductive Request
  | execute (command : Command)
  | executeWith (command : Command) (transfer : Transfer)
  | reset
  | enableDma
  | disableDma
  | selectDrive (drive : Drive)
  | setMotor (drive : Drive) (on : Bool)
  | setRate (rate : DataRate)
  | setRecording (recording : RecordingMode)
  | mainStatus
  | digitalInput
  | ps2Status

namespace Request

def perform : Request → Operation Unit
  | execute command => do
    let _ ← Operation.execute command
  | executeWith command transfer => do
    let _ ← Operation.executeWith command transfer
  | reset => Operation.reset
  | enableDma => do
    let _ ← Operation.enableDma.run
  | disableDma => Operation.disableDma
  | selectDrive drive => Operation.selectDrive drive
  | setMotor drive on => Operation.setMotor drive on
  | setRate rate => Operation.setRate rate
  | setRecording recording => Operation.setRecording recording
  | mainStatus => do
    let _ ← Operation.mainStatus
  | digitalInput => do
    let _ ← Operation.digitalInput
  | ps2Status => do
    let _ ← Operation.ps2Status

end Request

/-- One step of whoever uses the driver. -/
inductive Act
  | probe (irq channel : Option UInt8)
  | discover (irq channel : Option UInt8)
  | ask (request : Request)
  | release

/-- An act starts with the controller that the one before it has left, and leaves one in turn. -/
def Act.program (base : UInt16) (controller : Option Controller) :
    Act → Routine (Option Controller)
  | probe irq channel => Controller.probe ⟨base, irq, channel⟩
  | discover irq channel => Controller.discover ⟨base, irq, channel⟩
  | ask request =>
    match controller with
    | some c => do return some (← request.perform.run c).2
    | none => return none
  | release =>
    match controller with
    | some c => do
      let _ ← Operation.release.run c
      return none
    | none => return none

/-- The histories of the acts so far, and the controller after them. -/
inductive Run (base : UInt16) : List (History Platform) → Option Controller → Prop
  | start : Run base [] none
  | act {histories : List (History Platform)} {controller controller' : Option Controller}
      {h : History Platform} (a : Act) :
      Run base histories controller → Execution (a.program base controller) h controller' →
      Run base (histories ++ [h]) controller'

variable {base : UInt16} {histories : List (History Platform)} {controller : Option Controller}

/-- A condition on controllers that each act keeps holds of the controller after any run. -/
theorem Run.invariant {K : Controller → Prop}
    (hstep : ∀ a controller h controller', (∀ c ∈ controller, K c) →
      Execution (Act.program base controller a) h controller' → ∀ c ∈ controller', K c)
    (h : Run base histories controller) : ∀ c ∈ controller, K c := by
  induction h with
  | start => simp
  | act a _ hexec ih => exact hstep a _ _ _ ih hexec

/-- A machine with the driver on it, and all that was called so far. -/
structure Session (σ : Type) where
  histories : List (History Platform) := []
  controller : Option Controller := none
  machine : σ

namespace Session

variable {σ : Type}

def act (m : Machine Platform σ) (base : UInt16) (s : Session σ) (a : Act) : Session σ :=
  let program := a.program base s.controller
  { histories := s.histories ++ [program.history m s.machine]
    controller := (program.run m s.machine).1
    machine := (program.run m s.machine).2 }

def acts (m : Machine Platform σ) (base : UInt16) (s : Session σ) (acts : List Act) : Session σ :=
  acts.foldl (act m base) s

/-- Whatever is done on whatever machine is a run. -/
theorem run_acts (m : Machine Platform σ) (base : UInt16) (as : List Act) {s : Session σ}
    (h : Run base s.histories s.controller) :
    Run base (s.acts m base as).histories (s.acts m base as).controller := by
  induction as generalizing s with
  | nil => exact h
  | cons a as ih => exact ih (.act a h (Program.execution_run m _ _))

end Session
end Diskette
