import Diskette.Failure

/-! A run of sectors on one side of one cylinder, and the bytes it holds. -/
namespace Diskette

/-- The largest number of bytes a length can name. -/
def maxLength : Nat := UInt64.size - 1

structure SectorSpan where
  cylinder : UInt8
  head : UInt8
  /-- Counted from one. -/
  sector : UInt8
  sizeCode : UInt8
  count : UInt8
  deriving DecidableEq, Repr, Inhabited

namespace SectorSpan

/-- 128 bytes shifted left by the size code, in 64 bits; the largest length for a shift that
leaves them altogether. -/
def sectorBytes (span : SectorSpan) : Nat :=
  if span.sizeCode.toNat < 64 then 128 <<< span.sizeCode.toNat % UInt64.size else maxLength

/-- The whole payload, held at the largest length. -/
def byteLength (span : SectorSpan) : Nat := min (span.count.toNat * span.sectorBytes) maxLength

/-- The number of the last sector, without regard to its width. -/
def lastSector (span : SectorSpan) : Nat := span.sector.toNat + span.count.toNat - 1

def validate (span : SectorSpan) : Except Rejection Unit :=
  if span.head > 1 then .error .headOutOfRange
  else if span.sector = 0 then .error .sectorZero
  else if span.count = 0 then .error .emptyRun
  else if span.sizeCode > 7 then .error .sizeCodeOutOfRange
  else if span.lastSector > 255 then .error .runPastLastSector
  else .ok ()

end SectorSpan

end Diskette
