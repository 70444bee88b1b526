import Diskette.Command.Basic
import Diskette.Log.Record
import Diskette.Register.Status
import Diskette.Register.Port

/-! What the driver has to say about a controller, and in which words. -/
namespace Diskette

/-- What probing found out about a controller. -/
structure Features where
  /-- Status registers A and B answer. -/
  ps2 : Bool := false
  /-- The digital input register answers. -/
  atClass : Bool := false
  /-- The digital output register reads back what was written. -/
  outputReadable : Bool := false
  deriving DecidableEq, Repr, Inhabited

namespace Features

def bits (c : Features) : Nat :=
  (if c.ps2 then 1 else 0) + (if c.atClass then 2 else 0) + (if c.outputReadable then 4 else 0)

def text (c : Features) : String :=
  let names := (if c.ps2 then ["PS2"] else []) ++ (if c.atClass then ["AT"] else []) ++
    (if c.outputReadable then ["DOR_READABLE"] else [])
  if names.isEmpty then "(empty)" else " | ".intercalate names

end Features

namespace Log

/-- A record of named fields. -/
def fields (name : String) (items : List (String × String)) : String :=
  name ++ " \x7b " ++ ", ".intercalate (items.map fun (k, v) => k ++ ": " ++ v) ++ " \x7d"

def spanText (span : SectorSpan) : String :=
  fields "SectorRun" [
    ("cylinder", toString span.cylinder.toNat), ("head", toString span.head.toNat),
    ("sector", toString span.sector.toNat), ("size_code", toString span.sizeCode.toNat),
    ("count", toString span.count.toNat)]

def commandText : Command → String
  | .recalibrate => "Recalibrate"
  | .seek cylinder => s!"Seek({cylinder.toNat})"
  | .seekRelative offset => s!"SeekRelative({offset.toInt})"
  | .senseInterrupt => "SenseInterruptStatus"
  | .senseDrive => "SenseDriveStatus"
  | .readId head => fields "ReadSectorID" [("head", toString head.toNat)]
  | .read span => "ReadSector(" ++ spanText span ++ ")"
  | .write span => "WriteSector(" ++ spanText span ++ ")"
  | .specify t path =>
    fields "Specify" [
      ("step_rate", toString t.stepRate.toNat), ("head_unload", toString t.headUnload.toNat),
      ("head_load", toString t.headLoad.toNat), ("non_dma", toString (path == .port))]
  | .version => "Version"

def optionText : Option UInt8 → String
  | none => "None"
  | some n => s!"Some({n.toNat})"

inductive Event
  | nothingPresent
  | foundUnready (status : MainStatus)
  | stayingPolled (cause : Failure)
  | found (irq dma : Option UInt8) (features : Features) (path : DataPath)
  | resetting
  | notReadyAfterReset
  | drained (st0 : UInt8)
  | specifyFailed (cause : Failure)
  | submitted (command : Command) (drive : Drive)
  | failed (command : Command) (cause : Failure)
  | spinningUp (drive : Drive)
  | notAccepting (status : MainStatus)
  | moved (count : Nat) (direction : Direction) (span : SectorSpan)
  | interruptDriven (irq : UInt8)
  | polled
  | storm (irq : UInt8)
  | released
  deriving DecidableEq, Repr

namespace Event

def level : Event → Level
  | resetting | notReadyAfterReset | specifyFailed _ | stayingPolled _ | failed _ _ | storm _ =>
    .warn
  | found _ _ _ _ => .info
  | drained _ | submitted _ _ => .trace
  | _ => .debug

def target : Event → String
  | nothingPresent | foundUnready _ | stayingPolled _ | found _ _ _ _ =>
    "spindle::drivers::floppy::discovery"
  | resetting | notReadyAfterReset | drained _ | specifyFailed _ =>
    "spindle::drivers::floppy::reset"
  | submitted _ _ | failed _ _ | spinningUp _ | notAccepting _ | moved _ _ _ =>
    "spindle::drivers::floppy::engine"
  | interruptDriven _ | polled | storm _ | released => "spindle::drivers::floppy"

def text : Event → String
  | nothingPresent => "nothing present"
  | foundUnready status => "found in state MSR=" ++ Hex.taggedByte status.bits ++ ", resetting"
  | stayingPolled cause => "staying on polled I/O: " ++ cause.message
  | found irq dma features path =>
    "found (irq " ++ optionText irq ++ ", dma " ++ optionText dma ++ ", " ++ features.text ++
      ", " ++ (match path with | .channel => "DMA" | .port => "PIO") ++ ")"
  | resetting => "resetting controller"
  | notReadyAfterReset => "not ready after reset"
  | drained st0 => "drained ST0=" ++ Hex.taggedByte st0
  | specifyFailed cause => "specify after reset failed: " ++ cause.message
  | submitted command drive => s!"{commandText command} on drive {drive.index.toNat}"
  | failed command cause => commandText command ++ " failed: " ++ cause.message
  | spinningUp drive => s!"spinning up drive {drive.index.toNat}"
  | notAccepting status =>
    "not accepting commands (MSR=" ++ Hex.taggedByte status.bits ++ "), resetting"
  | moved count direction span =>
    s!"{count} bytes " ++ (match direction with | .toMemory => "read" | .fromMemory => "written") ++
      s!" C/H/S {span.cylinder.toNat}/{span.head.toNat}/{span.sector.toNat}"
  | interruptDriven irq => s!"interrupt-driven DMA on IRQ {irq.toNat}"
  | polled => "polled I/O"
  | storm irq => s!"interrupt storm on IRQ {irq.toNat}, switching to polled I/O"
  | released => "released"

/-- The record of an event on the controller at a base address. -/
def record (base : UInt16) (e : Event) : Record where
  level := e.level
  target := e.target
  text := "fdc " ++ Hex.tagged base.toNat ++ ": " ++ e.text

end Event

end Log

end Diskette
