import Diskette.Drive

/-! The sectors of the simulated disks. -/
namespace Diskette.Simulated

structure SectorId where
  drive : Drive
  cylinder : UInt8
  head : UInt8
  sector : UInt8
  deriving DecidableEq, Repr, Inhabited

/-- What each sector holds, if it was ever written. -/
abbrev Disk := SectorId → Option (List UInt8)

/-- The byte an unwritten sector reads as. -/
def filler : UInt8 := 0xF6

/-- The sectors a data command covers. -/
structure Extent where
  first : SectorId
  sizeCode : UInt8
  last : UInt8
  deriving DecidableEq, Repr, Inhabited

namespace Extent

def sectorBytes (x : Extent) : Nat := 128 <<< x.sizeCode.toNat % UInt64.size

def sectors (x : Extent) : Nat := x.last.toNat + 1 - x.first.sector.toNat

def byteLength (x : Extent) : Nat := x.sectors * x.sectorBytes

/-- Drive and head as they share a byte. -/
def unit (x : Extent) : UInt8 := (x.first.head <<< 2) ||| x.first.drive.index

/-- The result of a data command, with its status bytes in front. -/
def result (x : Extent) (st0 st1 st2 : UInt8) : List UInt8 :=
  [st0, st1, st2, x.first.cylinder, x.first.head, x.last, x.sizeCode]

end Extent

namespace Disk

def empty : Disk := fun _ => none

def put (d : Disk) (id : SectorId) (bytes : List UInt8) : Disk :=
  fun i => if i = id then some bytes else d i

def sectorAt (d : Disk) (id : SectorId) (size : Nat) : List UInt8 :=
  match d id with
  | some bytes => bytes
  | none => List.replicate size filler

/-- Reads so many sectors, from one on. -/
def readFrom (d : Disk) (size : Nat) : (count : Nat) → (id : SectorId) → List UInt8
  | 0, _ => []
  | count + 1, id =>
    d.sectorAt id size ++ d.readFrom size count { id with sector := id.sector + 1 }

def read (d : Disk) (x : Extent) : List UInt8 := d.readFrom x.sectorBytes x.sectors x.first

/-- Writes bytes to so many sectors at the most; the last one may come out short. -/
def writeFrom (d : Disk) (size : Nat) : (count : Nat) → (id : SectorId) → List UInt8 → Disk
  | 0, _, _ => d
  | _, _, [] => d
  | count + 1, id, bytes =>
    (d.put id (bytes.take size)).writeFrom size count { id with sector := id.sector + 1 }
      (bytes.drop size)

def write (d : Disk) (x : Extent) (bytes : List UInt8) : Disk :=
  d.writeFrom x.sectorBytes x.sectors x.first bytes

end Disk

end Diskette.Simulated
