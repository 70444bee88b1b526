import Diskette.Fifo.Ready
import Diskette.Interrupt.Wait
import Diskette.Register.Shadow

/-!
A controller as the driver knows it, and the operations on it that need no command. An operation is
a routine that carries the controller along.
-/
namespace Diskette

/-- Where the driver is in the current command. -/
inductive Phase
  | ready | sending | awaitingCompletion | receivingResult | done | faulted
  deriving DecidableEq, Repr, Inhabited

structure Controller where
  shadow : Shadow
  /-- The accepted interrupt line. -/
  line : Option Line
  /-- The accepted DMA channel. -/
  channel : Option UInt8
  features : Features
  status : ResultStatus := {}
  /-- Where the head was last reported to be. -/
  cylinder : UInt8 := 0
  recording : RecordingMode := {}
  version : Option UInt8 := none
  phase : Phase := .ready
  expectation : Expectation := .idle
  /-- The driver's handler is in the slot of the line. -/
  hooked : Bool := false
  /-- The handler that was in the slot before. -/
  prior : Option Handler := none
  path : DataPath := .port
  /-- The path last told to the controller; unknown after a reset. -/
  specified : Option DataPath := none
  /-- A report has carried the notice of an interrupt storm. -/
  stormReported : Bool := false
  deriving DecidableEq, Repr, Inhabited

abbrev Operation := StateT Controller Routine

/-- An operation that can fail. -/
abbrev Attempt := ExceptT Failure Operation

def Attempt.of {α : Type} (routine : Routine (Except Failure α)) : Attempt α :=
  ExceptT.mk (monadLift routine)

namespace Controller

def base (c : Controller) : UInt16 := c.shadow.base

def irq (c : Controller) : Option UInt8 := c.line.map (·.irq)

def drive (c : Controller) : Drive := c.shadow.output.drive

/-- On the DMA path, or with the driver's handler installed. -/
def holdsLine (c : Controller) : Bool := c.path = .channel || c.hooked

/-- Whether an interrupt storm has degraded the line. -/
def degraded (c : Controller) : Routine Bool :=
  match c.line with
  | some line => line.degraded
  | none => return false

end Controller

namespace Operation

def log (event : Log.Event) : Operation Unit := do
  Platform.log (← get).base event

def shadowed (change : Shadow → Routine Shadow) : Operation Unit := do
  let shadow ← change (← get).shadow
  modify fun c => { c with shadow }

def setPhase (phase : Phase) : Operation Unit :=
  modify fun c => { c with phase }

def setMotor (drive : Drive) (on : Bool) : Operation Unit := shadowed (·.setMotor drive on)

def selectDrive (drive : Drive) : Operation Unit := shadowed (·.selectDrive drive)

def setRate (rate : DataRate) : Operation Unit := shadowed (·.setRate rate)

def setRecording (recording : RecordingMode) : Operation Unit :=
  modify fun c => { c with recording }

def mainStatus : Operation MainStatus := do
  Fifo.readStatus (← get).base

/-- The disk change bit in bit 7; all ones on a controller without the register. -/
def digitalInput : Operation UInt8 := do
  let c ← get
  if c.features.atClass || c.features.ps2 then Platform.input (Port.digitalInput c.base)
  else return 0xFF

/-- Status registers A and B; all ones on a controller without them. -/
def ps2Status : Operation (UInt8 × UInt8) := do
  let c ← get
  if c.features.ps2 then
    let a ← Platform.input (Port.statusA c.base)
    let b ← Platform.input (Port.statusB c.base)
    return (a, b)
  else return (0xFF, 0xFF)

end Operation

end Diskette
