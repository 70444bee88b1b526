import Diskette.Platform
import Diskette.Register.Status

/-! Bounded waits for the main status register. -/
namespace Diskette.Fifo

/-- Looks at the status that one byte may take to become ready. -/
def byteLooks : Nat := 1000

def readStatus (base : UInt16) : Routine MainStatus := do
  return ⟨← Platform.input (Port.mainStatus base)⟩

/-- The first status that is ready, out of so many looks. -/
def awaitReadyWithin (base : UInt16) : (looks : Nat) → Routine (Option MainStatus)
  | 0 => return none
  | looks + 1 => do
    let status ← readStatus base
    if status.dataReady then return some status else awaitReadyWithin base looks

def awaitReady (base : UInt16) : Routine (Option MainStatus) := awaitReadyWithin base byteLooks

/-- Looks once, and again after each of so many milliseconds. -/
def awaitStatusFor (base : UInt16) (ready : MainStatus → Bool) : (delays : Nat) → Routine Bool
  | 0 => return ready (← readStatus base)
  | delays + 1 => do
    if ready (← readStatus base) then return true
    else
      Platform.delay 1
      awaitStatusFor base ready delays

/-- Looks once a millisecond, at least once, until the time is up; no delay follows the last look. -/
def awaitStatus (base : UInt16) (ready : MainStatus → Bool) (ms : Nat) : Routine Bool :=
  awaitStatusFor base ready (ms - 1)

end Diskette.Fifo
