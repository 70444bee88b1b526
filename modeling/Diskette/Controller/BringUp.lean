import Diskette.Controller.DataPath
import Diskette.Controller.Recovery

/-!
Finding controllers. No register tells what lies at an address, so probing reads what it can: what
is not there floats high. The result is a whole controller or none.
-/
namespace Diskette

/-- A register window to probe, and how it may be wired. -/
structure Placement where
  base : UInt16
  irq : Option UInt8
  channel : Option UInt8
  deriving DecidableEq, Repr, Inhabited

namespace Placement

/-- The primary and the secondary controller of a PC. -/
def standard : List Placement := [⟨0x3F0, some 6, some 2⟩, ⟨0x370, some 6, some 2⟩]

/-- Lines 0 and 1 belong to the timer and the keyboard, and there are sixteen. -/
def usableIrq (irq : UInt8) : Bool := 2 ≤ irq && irq ≤ 15

/-- Only the first four channels carry bytes. -/
def usableChannel (channel : UInt8) : Bool := channel ≤ 3

end Placement

namespace Controller

/-- What an undecoded port reads as. -/
def floating : UInt8 := 0xFF

def openLine : (irq : Option UInt8) → Routine (Option Line)
  | some irq => do return some (← Line.create irq)
  | none => return none

/-- Finds out about the controller that answers at a base address. A line or channel that cannot be
used is passed over; nothing is bound or unmasked. -/
def classify (placement : Placement) : Routine Controller := do
  let base := placement.base
  let irq := placement.irq.filter Placement.usableIrq
  let channel := placement.channel.filter Placement.usableChannel
  let a ← Platform.input (Port.statusA base)
  let b ← Platform.input (Port.statusB base)
  let input ← Platform.input (Port.digitalInput base)
  let output := DigitalOutput.firmwareDefault (irq.isSome && channel.isSome)
  let shadow ← Shadow.writeOutput { base, output } output
  let _ ← Fifo.readStatus base
  let readBack ← Platform.input (Port.digitalOutput base)
  let line ← openLine irq
  return {
    shadow, line, channel
    features := {
      ps2 := a &&& b != floating
      atClass := input != floating
      outputReadable := readBack == output.encode } }

/-- Looks at what answers at a base address. -/
def probe (placement : Placement) : Routine (Option Controller) := do
  if (← Platform.input (Port.mainStatus placement.base)) = floating then
    Platform.log placement.base .nothingPresent
    return none
  else
    return some (← classify placement)

/-- Resets a controller that was found busy, or does not take a byte. -/
def resetUnready : Operation Unit := do
  let status ← Operation.mainStatus
  if status.busy || !status.canWrite then
    Operation.log (.foundUnready status)
    Operation.reset

/-- Takes the DMA path if there is a line and a channel for it. -/
def chooseChannel : Operation Unit := do
  let c ← get
  if c.line.isSome && c.channel.isSome then
    match ← Operation.enableDma.run with
    | .ok () => return ()
    | .error cause => Operation.log (.stayingPolled cause)

/-- Makes a probed controller ready for commands. -/
def bringUp : Operation Unit := do
  resetUnready
  chooseChannel
  let c ← get
  Operation.log (.found c.irq c.channel c.features c.path)

/-- Probes an address and makes the controller there ready for commands. -/
def discover (placement : Placement) : Routine (Option Controller) := do
  match ← probe placement with
  | none => return none
  | some c => return some (← bringUp.run c).2

/-- The controllers among some placements. -/
def discoverAll : (placements : List Placement) → Routine (List Controller)
  | [] => return []
  | placement :: rest => do
    match ← discover placement with
    | some c => return c :: (← discoverAll rest)
    | none => discoverAll rest

end Controller

end Diskette
