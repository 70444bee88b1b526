import Diskette.Command.ResultBytes
import Diskette.Command.SectorSpan
import Diskette.Drive

/-! The commands of a controller, what each of them needs and the bytes it is sent as. -/
namespace Diskette

/-- Which way payload bytes move, seen from memory. -/
inductive Direction
  | toMemory | fromMemory
  deriving DecidableEq, Repr, Inhabited

/-- The way a payload takes: through a DMA channel, or byte by byte through the data port. -/
inductive DataPath
  | channel | port
  deriving DecidableEq, Repr, Inhabited

/-- Encoding choices that hold for every command of a controller. -/
structure RecordingMode where
  /-- Go on from head 0 to head 1 within one data command. -/
  multiTrack : Bool := true
  /-- Double density. -/
  mfm : Bool := true
  deriving DecidableEq, Repr, Inhabited

/-- Step rate, head unload and head load times in the controller's own units. -/
structure DriveTiming where
  stepRate : UInt8
  headUnload : UInt8
  headLoad : UInt8
  deriving DecidableEq, Repr, Inhabited

namespace DriveTiming

/-- A 1.44M drive at 500 kbit/s. -/
def standard : DriveTiming := ⟨0x0D, 0x0F, 0x01⟩

end DriveTiming

inductive Command
  | recalibrate
  | seek (cylinder : UInt8)
  /-- Negative offsets go towards cylinder 0. -/
  | seekRelative (offset : Int16)
  | senseInterrupt
  | senseDrive
  | readId (head : UInt8)
  | read (span : SectorSpan)
  | write (span : SectorSpan)
  | specify (timing : DriveTiming) (path : DataPath)
  | version
  deriving DecidableEq, Repr, Inhabited

/-- What decides how the end of a command is recognised. -/
inductive CommandKind
  /-- Moves the head, interrupts, and owes a sense interrupt status. -/
  | seek
  | transfer
  | immediate
  deriving DecidableEq, Repr, Inhabited

namespace Command

def standardSpecify (path : DataPath) : Command := specify .standard path

def kind : Command → CommandKind
  | recalibrate | seek _ | seekRelative _ => .seek
  | read _ | write _ => .transfer
  | _ => .immediate

/-- The run of sectors and the direction of a data command. -/
def transfer? : Command → Option (SectorSpan × Direction)
  | read span => some (span, .toMemory)
  | write span => some (span, .fromMemory)
  | _ => none

def needsMotor (c : Command) : Bool := c.kind != .immediate

/-- A sense interrupt status answers with one byte when nothing is pending. -/
def resultLength : Command → ResultLength
  | recalibrate | seek _ | seekRelative _ | specify _ _ => .exactly 0
  | senseInterrupt => .between 1 2
  | senseDrive | version => .exactly 1
  | readId _ | read _ | write _ => .exactly maxResult

def validate : Command → Except Rejection Unit
  | seekRelative offset =>
    if offset.toInt.natAbs > 255 then .error .relativeSeekTooFar else .ok ()
  | readId head => if head > 1 then .error .headOutOfRange else .ok ()
  | read span | write span => span.validate
  | specify t _ =>
    if t.stepRate > 0x0F ∨ t.headUnload > 0x0F ∨ t.headLoad > 0x7F then .error .timingOutOfRange
    else .ok ()
  | _ => .ok ()

end Command

end Diskette
