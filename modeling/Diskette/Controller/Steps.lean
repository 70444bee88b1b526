import Diskette.ChannelTransfer
import Diskette.Command.Encoding
import Diskette.Controller.Report
import Diskette.Controller.Recovery
import Diskette.Fifo.Exchange

/-!
The steps that commands are made of: getting the drive and the controller ready, sending the
bytes, waiting, and taking in the result.
-/
namespace Diskette.Operation

def startTime : UInt32 := 500
def seekTimeout : Nat := 1000

/-- Turns the motor on and lets it come up to speed, if it does not run. -/
def startMotor (drive : Drive) : Operation Unit := do
  unless (← get).shadow.output.motorOn drive do
    log (.spinningUp drive)
    setMotor drive true
    Platform.delay startTime

/-- Resets a controller that is busy or does not take a byte. -/
def makeReceptive : Operation Unit := do
  let status ← mainStatus
  if !status.canWrite || status.busy then
    log (.notAccepting status)
    reset

/-- Tells the controller the data path, if it does not know it. -/
def agreeOnPath : Attempt Unit := do
  let c ← getThe Controller
  unless c.specified = some c.path do specify c.path

/-- A DMA transfer that a command starts. -/
structure ChannelLoad where
  channel : UInt8
  direction : Direction
  address : UInt32
  length : Nat
  deriving DecidableEq, Repr, Inhabited

def setUpChannel : (load : Option ChannelLoad) → Routine Unit
  | some l => Channel.setUp l.channel l.direction l.address l.length
  | none => return ()

/-- What to expect of the line once a command is sent. -/
def expectEnd (c : Controller) (interrupting : Bool) : Routine Expectation :=
  match interrupting, c.line with
  | true, some line => Expectation.arm line
  | _, _ => return c.expectation

/-- Sends a command. The channel and the line are armed in the same window without interrupts. -/
def sendCommand (bytes : List UInt8) (interrupting : Bool) (load : Option ChannelLoad) :
    Attempt Unit := do
  setPhase .sending
  let c ← getThe Controller
  let (expectation, sent) ← Platform.uninterrupted do
    setUpChannel load
    let expectation ← expectEnd c interrupting
    return (expectation, ← Fifo.send c.base bytes)
  modifyThe Controller fun c => { c with expectation }
  MonadExcept.ofExcept sent

def awaitEnd (ms : Nat) (settled : MainStatus → Bool) : Attempt EndSign := do
  setPhase .awaitingCompletion
  let c ← getThe Controller
  let line := if c.path = .channel then c.line else none
  let (result, expectation) ←
    c.expectation.wait line (do return settled (← Fifo.readStatus c.base)) ms
  modifyThe Controller fun c => { c with expectation }
  match result with
  | .interrupt => return .interrupt
  | .polled => return .polling
  | .timedOut => throw .resultTimeout

def awaitResult : Attempt Unit := do
  .of (Fifo.awaitResult (← getThe Controller).base)

/-- Waits for the result of a command that has one. -/
def awaitAnswer (n : ResultLength) : Attempt Unit := do
  .of (Fifo.awaitAnswer (← getThe Controller).base n)

/-- Reads the result and waits for the command to be over. -/
def takeResult (n : ResultLength) : Attempt (ResultBytes n) := do
  setPhase .receivingResult
  let c ← getThe Controller
  let result ← .of (Platform.uninterrupted (Fifo.receive c.base n))
  .of (Fifo.finish c.base)
  return result

/-- Takes ST0 to ST2 and the cylinder from a full result. -/
def absorbStatus (result : ResultBytes (.exactly maxResult)) : Operation Unit :=
  modify fun c => { c with
    status := { c.status with
      st0 := result.byte 0
      st1 := result.byte 1
      st2 := result.byte 2 }
    cylinder := result.byte 3 }

/-- Fails if the status bytes of a full result speak of a failure. -/
def checkStatus (kind : CommandKind) (result : ResultBytes (.exactly maxResult)) : Attempt Unit :=
  if indicatesFailure kind (result.byte 0) (result.byte 1) (result.byte 2) then
    throw (.abnormalTermination (result.byte 0) (result.byte 1) (result.byte 2))
  else
    return ()

/-- The sense interrupt status that a seek owes, which tells where the head is now. -/
def senseHead : Attempt (ResultBytes (.exactly 2)) := do
  let c ← getThe Controller
  let result ← .of
    (Fifo.transact c.base (Command.senseInterrupt.bytes c.drive c.recording) (.exactly 2))
  modifyThe Controller fun c => { c with
    status := { c.status with st0 := result.byte 0 }
    cylinder := result.byte 1 }
  if indicatesFailure .seek (result.byte 0) 0 0 then
    throw (.abnormalTermination (result.byte 0) 0 0)
  return result

end Diskette.Operation
