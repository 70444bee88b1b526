import Diskette.Machine.InterruptUnit
import Diskette.Machine.Script
import Diskette.Platform

/-! A clock with one interrupt line that fires at set times, and a port that answers from a list. -/
namespace Diskette

structure Clock where
  now : Nat := 0
  /-- Ends of interrupts, and maskings of a line. -/
  ended : Nat := 0
  masked : Nat := 0
  memory : Memory := {}
  line : Line := ⟨6, 0⟩
  /-- When the line fires. -/
  schedule : List Nat := []
  answers : List Bool := []
  /-- Answers given. -/
  asked : Nat := 0

namespace Clock

/-- A clock whose line has the given number. -/
def new (irq : UInt8) : Clock :=
  let (line, memory) := Memory.step {} (.createLine irq)
  { line, memory }

def serviceStep (k : Clock) : (c : Service.Call) → Service.Reply c × Clock
  | .endOfInterrupt _ => ((), { k with ended := k.ended + 1 })
  | .mask _ => ((), { k with masked := k.masked + 1 })
  | .countFire id =>
    let (stormy, memory) := k.memory.countFire id
    (stormy, { k with memory })

def service : Machine Service Clock := ⟨fun c k => k.serviceStep c⟩

def fire (k : Clock) : (count : Nat) → Clock
  | 0 => k
  | count + 1 => fire ((Handler.counting k.line).serve.run service k).2 count

/-- Lets time go by; the line fires if it is scheduled for the end of it. -/
def elapse (k : Clock) (ms : Nat) : Clock :=
  let now := k.now + ms
  { k with now }.fire (k.schedule.countP (· == now))

def step (k : Clock) : (c : Platform.Call) → Platform.Reply c × Clock
  | .input _ =>
    let (answer, answers) := nextAnswer k.answers false
    (if answer then 1 else 0, { k with answers, asked := k.asked + 1 })
  | .delay ms => ((), k.elapse ms.toNat)
  | .memory c =>
    let (reply, memory) := k.memory.step c
    (reply, { k with memory })
  | .endOfInterrupt _ => ((), { k with ended := k.ended + 1 })
  | .maskLine _ => ((), { k with masked := k.masked + 1 })
  | .channel _ .remaining => (0, k)
  | .channel _ .terminalCount => (false, k)
  | .channel _ .mask | .channel _ .unmask | .channel _ (.setMode _)
  | .channel _ (.loadCount _) | .channel _ (.loadAddress _) => ((), k)
  | .bind _ _ => (none, k)
  | .suppress => (true, k)
  | .output _ _ | .unmaskLine _ | .restore _ _ | .resume _ | .log _ _ => ((), k)

def machine : Machine Platform Clock := ⟨fun c k => k.step c⟩

/-- Whether the port answers yes. -/
def ask : Routine Bool := do
  return (← Platform.input 0) != 0

end Clock

end Diskette
