import Diskette.Command.Basic
import Diskette.Register.DigitalOutput

/-! Commands as the bytes that go through the data port. -/
namespace Diskette

namespace Opcode

def specify : UInt8 := 0x03
def senseDrive : UInt8 := 0x04
def writeData : UInt8 := 0x05
def readData : UInt8 := 0x06
def recalibrate : UInt8 := 0x07
def senseInterrupt : UInt8 := 0x08
def readId : UInt8 := 0x0A
def seek : UInt8 := 0x0F
def version : UInt8 := 0x10
def relativeSeek : UInt8 := 0x8F
/-- Added to a relative seek that steps towards cylinder 0. -/
def outward : UInt8 := 0x40
def multiTrack : UInt8 := 0x80
def mfm : UInt8 := 0x40

end Opcode

/-- The gap between sectors on 3.5 and 5.25 inch double density media. -/
def gapLength : UInt8 := 0x1B

/-- Stands where a length would, which counts for sectors of 128 bytes alone. -/
def unusedLength : UInt8 := 0xFF

namespace Command

/-- Drive and head as they share a byte. -/
def unit (drive : Drive) (head : UInt8) : UInt8 := drive.index ||| ((head &&& 1) <<< 2)

def dataBytes (opcode : UInt8) (span : SectorSpan) (drive : Drive) (flags : RecordingMode) :
    List UInt8 :=
  [opcode ||| bitIf flags.multiTrack Opcode.multiTrack ||| bitIf flags.mfm Opcode.mfm,
    unit drive span.head, span.cylinder, span.head, span.sector, span.sizeCode,
    UInt8.ofNat span.lastSector, gapLength, unusedLength]

/-- The bytes of a command, its parameters taken as they are. -/
def bytes (drive : Drive) (flags : RecordingMode) : Command → List UInt8
  | recalibrate => [Opcode.recalibrate, drive.index]
  | seek cylinder => [Opcode.seek, unit drive 0, cylinder]
  | seekRelative offset =>
    [Opcode.relativeSeek ||| bitIf (offset < 0) Opcode.outward, drive.index,
      UInt8.ofNat offset.toInt.natAbs]
  | senseInterrupt => [Opcode.senseInterrupt]
  | senseDrive => [Opcode.senseDrive, unit drive 0]
  | readId head => [Opcode.readId ||| bitIf flags.mfm Opcode.mfm, unit drive head]
  | read span => dataBytes Opcode.readData span drive flags
  | write span => dataBytes Opcode.writeData span drive flags
  | specify t path =>
    [Opcode.specify, (t.stepRate <<< 4) ||| t.headUnload,
      (t.headLoad <<< 1) ||| bitIf (path == .port) 1]
  | version => [Opcode.version]

/-- The bytes of a command whose parameters fit. -/
def encode (c : Command) (drive : Drive) (flags : RecordingMode) : Except Rejection (List UInt8) :=
  match c.validate with
  | .ok () => .ok (c.bytes drive flags)
  | .error cause => .error cause

theorem encode_eq_ok_iff {c : Command} {drive : Drive} {flags : RecordingMode} {bs : List UInt8} :
    c.encode drive flags = .ok bs ↔ c.validate = .ok () ∧ c.bytes drive flags = bs := by
  unfold encode
  split <;> simp_all

end Command

end Diskette
