import Diskette.Platform

/-!
Waiting for the end of a command. Arming notes how many fires the line will have counted once the
command interrupts; a wait then watches that count, and looks at the hardware itself only where the
line is missing, unarmed or degraded, or as a last resort when the time is up.
-/
namespace Diskette

inductive Expectation
  | idle
  /-- Fires to have been counted. -/
  | armed (expected : UInt32)
  | fired
  deriving DecidableEq, Repr, Inhabited

inductive WaitEnd
  | interrupt | polled | timedOut
  deriving DecidableEq, Repr, Inhabited

/-- Whether a count has caught up with another, both modulo 2³². -/
def caughtUp (fired expected : UInt32) : Bool := fired - expected < 0x7FFFFFFF

namespace Expectation

/-- Expects one more fire than there have been. -/
def arm (line : Line) : Routine Expectation := do
  line.acknowledge
  return armed ((← line.fired) + 1)

/-- The count an armed wait goes by: that of a line that is there and healthy. -/
def trusted (e : Expectation) (line : Option Line) : Routine (Option (Line × UInt32)) :=
  match line, e with
  | some l, armed expected => do
    if ← l.degraded then return none else return some (l, expected)
  | _, _ => return none

/-- A look at the counter and, where that is not trusted or this is the last look, at the hardware. -/
def watch (e : Expectation) (line : Option Line) (poll : Routine Bool) (last : Bool) :
    Routine (Option WaitEnd) := do
  match ← e.trusted line with
  | some (l, expected) =>
    if caughtUp (← l.fired) expected then
      l.acknowledge
      return some .interrupt
    else if last then
      return if ← poll then some .polled else none
    else
      return none
  | none => return if ← poll then some .polled else none

/-- Watches once a millisecond for up to the given time. -/
def wait (e : Expectation) (line : Option Line) (poll : Routine Bool) :
    (ms : Nat) → Routine (WaitEnd × Expectation)
  | 0 => do
    match ← e.watch line poll true with
    | some result => return (result, fired)
    | none => return (.timedOut, idle)
  | ms + 1 => do
    match ← e.watch line poll false with
    | some result => return (result, fired)
    | none =>
      Platform.delay 1
      wait e line poll ms

end Expectation

end Diskette
