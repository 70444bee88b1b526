import Diskette.Pc.Cpu

/-!
Delays by the interval timer. Its down-counter is latched again and again, and the steps between one
latch and the next are added up.
-/
namespace Diskette.Pc

inductive Timer.Mode
  /-- One step for each clock. -/
  | rateGenerator
  /-- Two steps for each clock. -/
  | squareWave
  deriving DecidableEq, Repr, Inhabited

structure Timer where
  /-- What the counter reloads from; zero stands for 65536. -/
  divisor : UInt16
  mode : Timer.Mode
  deriving DecidableEq, Repr, Inhabited

namespace Timer

def counterPort : UInt16 := 0x40
def commandPort : UInt16 := 0x43

/-- Clocks in a second. -/
def frequency : Nat := 1193182

/-- Clocks in a millisecond, rounded up. -/
def clocksInMs : UInt64 := UInt64.ofNat ((frequency + 999) / 1000)

def stepsPerClock : Mode → UInt64
  | .rateGenerator => 1
  | .squareWave => 2

/-- The steps that make up a delay. -/
def stepsFor (t : Timer) (ms : UInt32) : UInt64 :=
  ms.toUInt64 * clocksInMs * stepsPerClock t.mode

def period (t : Timer) : UInt32 := if t.divisor = 0 then 0x10000 else t.divisor.toUInt32

/-- The steps from one count to a later one, over one reload at the most. -/
def stepsBetween (last now period : UInt32) : UInt32 :=
  if now ≤ last then last - now else last + period - now

def readCount : Code UInt32 := do
  Cpu.output commandPort 0
  let low ← Cpu.input counterPort
  let high ← Cpu.input counterPort
  return (high.toUInt32 <<< 8) ||| low.toUInt32

/-- Latches until the steps reach the target, so many times at the most; tells whether they did. -/
def waitCounts (period : UInt32) (target : UInt64) :
    (latches : Nat) → (elapsed : UInt64) → (last : UInt32) → Code Bool
  | 0, elapsed, _ => return target ≤ elapsed
  | latches + 1, elapsed, last => do
    if elapsed < target then
      let now ← readCount
      waitCounts period target latches (elapsed + (stepsBetween last now period).toUInt64) now
    else return true

/-- Waits for a number of milliseconds, with so many latches at the most. -/
def delayWithin (t : Timer) (latches : Nat) (ms : UInt32) : Code Bool := do
  let start ← readCount
  waitCounts t.period (t.stepsFor ms) latches 0 start

/-- Latches after which a counter that has not got there counts as standing still: one turn of the
counter for each step to be made. -/
def patience (t : Timer) (ms : UInt32) : Nat := (t.stepsFor ms).toNat * 0x10000

/-- Waits for a number of milliseconds. The loop has no bound of its own and would latch a counter
that stands still forever. Here it is given up after `patience` latches, so against such a counter,
and only there, the delay comes back short; `delayWithin` tells the two apart. -/
def delay (t : Timer) (ms : UInt32) : Code Unit := do
  let _ ← t.delayWithin (t.patience ms) ms

end Timer

end Diskette.Pc
