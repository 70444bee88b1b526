import Diskette.Command.Encoding
import Diskette.Controller.Basic
import Diskette.Fifo.Exchange

/-!
Reset. It wipes the registers behind the shadow and the controller's commands, so the registers are
written again, the interrupts owed for the four drives are drained, and the data path is specified.
-/
namespace Diskette.Operation

/-- How long the reset line is held. -/
def resetHold : UInt32 := 1000

/-- The answer of a sense interrupt status when nothing is pending. -/
def nothingPending : UInt8 := 0x80

/-- Tells the controller which data path to use. -/
def specify (path : DataPath) : Attempt Unit := do
  let c ← get
  let _ ← .of (Fifo.transact c.base ((Command.standardSpecify path).bytes c.drive c.recording)
    (.exactly 0))
  modify fun c => { c with specified := some path }

/-- Takes back up to so many pending interrupts, until none is left or one cannot be had. -/
def drain : (count : Nat) → Operation Unit
  | 0 => return ()
  | count + 1 => do
    let c ← get
    match ← Fifo.transact c.base (Command.senseInterrupt.bytes c.drive c.recording)
      (.between 1 2) with
    | .ok result =>
      unless result.byte 0 = nothingPending do
        log (.drained (result.byte 0))
        drain count
    | .error _ => return ()

/-- Holds the reset line for its time. -/
def pulseReset : Operation Unit := do
  shadowed (·.setReset true)
  Platform.delay resetHold
  shadowed (·.setReset false)

/-- Gives the controller time to come out of its reset, and looks at it once more. -/
def awaitRestart : Operation Unit := do
  unless ← Fifo.awaitStatus (← get).base MainStatus.dataReady Fifo.resultTimeout do
    log .notReadyAfterReset

def acknowledgeLine : Operation Unit := do
  if let some line := (← get).line then line.acknowledge

/-- Tells the controller the data path again. That it does not listen is no failure. -/
def respecify : Operation Unit := do
  match ← (specify (← get).path).run with
  | .ok () => return ()
  | .error cause => log (.specifyFailed cause)

/-- Resets the controller. Whatever it does meanwhile, the driver ends ready and disarmed. -/
def reset : Operation Unit := do
  log .resetting
  pulseReset
  awaitRestart
  let _ ← mainStatus
  (← get).shadow.resync
  drain 4
  acknowledgeLine
  modify fun c => { c with expectation := .idle, specified := none }
  respecify
  setPhase .ready

end Diskette.Operation
