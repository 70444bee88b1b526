import Diskette.Simulated.Disk

/-! How the simulated controller understands the bytes it is sent. -/
namespace Diskette.Simulated

/-- A command as the controller takes it. -/
inductive Order
  | specify (nonDma : Bool)
  | senseDrive (drive : Drive) (head : UInt8)
  | recalibrate (drive : Drive)
  | senseInterrupt
  | readId (drive : Drive) (head : UInt8)
  | seek (drive : Drive) (head cylinder : UInt8)
  /-- So many cylinders outward, towards cylinder 0, or inward. -/
  | step (drive : Drive) (outward : Bool) (cylinders : UInt8)
  | version
  | transfer (write : Bool) (extent : Extent)
  | invalid
  deriving DecidableEq, Repr, Inhabited

namespace Order

/-- The number of bytes of a command, from its first. -/
def length (first : UInt8) : Nat :=
  let op := first &&& 0x1F
  if op = 0x03 ∨ op = 0x0F then 3
  else if op = 0x04 ∨ op = 0x07 ∨ op = 0x0A then 2
  else if op = 0x05 ∨ op = 0x06 then 9
  else 1

/-- The order that some bytes give; bytes that are missing count as zero. -/
def ofBytes (bytes : List UInt8) : Order :=
  let byte (i : Nat) := bytes.getD i 0
  let op := byte 0
  let drive := Drive.ofBits (byte 1)
  let head := (byte 1 >>> 2) &&& 1
  if op = 0x03 then specify (byte 2 &&& 1 != 0)
  else if op = 0x04 then senseDrive drive head
  else if op = 0x07 then recalibrate drive
  else if op = 0x08 then senseInterrupt
  else if op &&& 0xBF = 0x0A then readId drive head
  else if op = 0x0F then seek drive head (byte 2)
  else if op &&& 0xBF = 0x8F then step drive (op &&& 0x40 != 0) (byte 2)
  else if op = 0x10 then version
  else if op &&& 0x1F = 0x05 ∨ op &&& 0x1F = 0x06 then
    transfer (op &&& 0x1F == 0x05) ⟨⟨drive, byte 2, byte 3, byte 4⟩, byte 5, byte 6⟩
  else invalid

end Order

end Diskette.Simulated
