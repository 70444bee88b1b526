import Diskette.Controller.DataPath
import Diskette.Controller.Payload

/-!
Running a command. Nothing is sent before the command and its buffer are known to be good; every
failure after that resets the controller before it is reported.
-/
namespace Diskette.Operation

/-- Ready, and the drive no longer stepping. -/
def headAtRest (drive : Drive) (status : MainStatus) : Bool :=
  status.dataReady && !status.seeking drive

/-- Keeps what a sense interrupt status says, which may leave the cylinder out. -/
def absorbSense (result : ResultBytes (.between 1 2)) : Operation Unit :=
  modify fun c => { c with
    status := { c.status with st0 := result.byte ⟨0, by decide⟩ }
    cylinder := (result.byte? 1).getD c.cylinder }

def absorbDriveStatus (result : ResultBytes (.exactly 1)) : Operation Unit :=
  modify fun c => { c with status := { c.status with st3 := result.byte ⟨0, by decide⟩ } }

def absorbVersion (result : ResultBytes (.exactly 1)) : Operation Unit :=
  modify fun c => { c with version := some (result.byte ⟨0, by decide⟩) }

/-- Keeps what the result of an immediate command says. -/
def absorb : (command : Command) → ResultBytes command.resultLength → Attempt Unit
  | .senseInterrupt, result => absorbSense result
  | .senseDrive, result => absorbDriveStatus result
  | .readId _, result => do
    absorbStatus result
    checkStatus .immediate result
  | .version, result => absorbVersion result
  | .specify _ path, _ => modifyThe Controller fun c => { c with specified := some path }
  | _, _ => return ()

/-- A command that moves the head: it interrupts if the line is in use, and owes a sense. -/
def runSeek (command : Command) (bytes : List UInt8) (drive : Drive) : Attempt Report := do
  sendCommand bytes ((← getThe Controller).path == .channel) none
  let endedBy ← awaitEnd seekTimeout (headAtRest drive)
  let _ ← takeResult command.resultLength
  let result ← senseHead
  return {
    result := result.toList
    status := (← getThe Controller).status
    transferred := 0
    endedBy }

def runImmediate (command : Command) (bytes : List UInt8) : Attempt Report := do
  sendCommand bytes false none
  awaitAnswer command.resultLength
  let result ← takeResult command.resultLength
  absorb command result
  return {
    result := result.toList
    status := (← getThe Controller).status
    transferred := 0
    endedBy := .polling }

def readyDrive (command : Command) (drive : Drive) : Operation Unit :=
  if command.needsMotor then startMotor drive else return ()

/-- Runs an accepted command. -/
def carryOut (command : Command) (bytes : List UInt8) (t : Option Transfer) : Delivery Report := do
  let drive := (← getThe Controller).drive
  readyDrive command drive
  makeReceptive
  match command.transfer?, t with
  | some (span, _), some t => transfer bytes span t
  | _, _ =>
    match command.kind with
    | .seek => .attempt (runSeek command bytes drive)
    | _ => .attempt (runImmediate command bytes)

/-- Recovery, the same for every failure. -/
def recover (command : Command) (cause : Failure) : Operation Unit := do
  log (.failed command cause)
  maskChannel
  modify fun c => { c with expectation := .idle }
  reset
  setPhase .faulted

/-- Checks a command and its buffer, without touching the hardware. -/
def accept (command : Command) (t : Option Transfer) : Routine (Except Rejection Unit) := do
  match command.transfer?, t with
  | some _, none => return .error .missingBuffer
  | none, some _ => return .error .unexpectedBuffer
  | some _, some t => return t.validate command (← Platform.memory .bounceSize)
  | none, none => return .ok ()

/-- The bytes of a command that is accepted. -/
def prepare (command : Command) (t : Option Transfer) :
    Operation (Except Rejection (List UInt8)) := do
  match ← accept command t with
  | .error cause => return .error cause
  | .ok () =>
    let c ← get
    return command.encode c.drive c.recording

/-- A command under way: the notice of a storm found before it, its outcome, and the bytes that
have reached the caller. -/
structure Pass where
  early : Option Failure
  outcome : Except Failure Report
  delivered : List UInt8

/-- Carries out an accepted command, on whichever path a storm has left. -/
def undertake (command : Command) (bytes : List UInt8) (t : Option Transfer) : Operation Pass := do
  let early ← noticeStorm
  setPhase .ready
  log (.submitted command (← get).drive)
  let (outcome, delivered) ← (carryOut command bytes t).run []
  return { early, outcome, delivered }

/-- The notice that a report carries: of a storm found before the command, or else after it. -/
def takeNotice (early : Option Failure) : Operation (Option Failure) :=
  match early with
  | some notice => return some notice
  | none => noticeStorm

/-- Ends a command that went well. -/
def complete (early : Option Failure) (report : Report) : Operation Report := do
  setPhase .done
  let notice ← takeNotice early
  modify fun c => { c with stormReported := c.stormReported || notice.isSome }
  return { report with notice }

/-- Runs a command; hands back the outcome, and the bytes that have reached the front of the
caller's buffer. -/
def perform (command : Command) (t : Option Transfer) :
    Operation (Except Failure Report × List UInt8) := do
  match ← prepare command t with
  | .error cause => return (.error (.invalidParameters cause), [])
  | .ok bytes =>
    let pass ← undertake command bytes t
    match pass.outcome with
    | .ok report => return (.ok (← complete pass.early report), pass.delivered)
    | .error cause =>
      recover command cause
      return (.error cause, pass.delivered)

/-- Runs a command that carries no payload. -/
def execute (command : Command) : Operation (Except Failure Report) := do
  return (← perform command none).1

/-- Runs a data command; hands back the caller's buffer as well. -/
def executeWith (command : Command) (t : Transfer) :
    Operation (Except Failure Report × PayloadBuffer) := do
  let (outcome, delivered) ← perform command (some t)
  return (outcome, t.buffer.receive delivered)

end Diskette.Operation
