/-! Where a bounce buffer may lie for a DMA channel to reach it. -/
namespace Diskette.Pc.BounceBuffer

inductive Defect
  | empty | tooLong | aboveLimit | crossesPage
  deriving DecidableEq, Repr, Inhabited

def Defect.message : Defect → String
  | empty => "bounce buffer is empty"
  | tooLong => "bounce buffer is longer than 0xFFFF bytes"
  | aboveLimit => "bounce buffer lies above 16 MiB"
  | crossesPage => "bounce buffer crosses a 64 KiB boundary"

/-- The first address that a channel cannot reach. -/
def limit : Nat := 0x1000000

/-- Bytes that share the upper part of their address. -/
def page : Nat := 0x10000

/-- A count of one more byte would read back as zero before anything has moved. -/
def maxLength : Nat := 0xFFFF

def validate (address : UInt32) (length : Nat) : Except Defect Unit :=
  let last := address.toNat + length - 1
  if length = 0 then .error .empty
  else if length > maxLength then .error .tooLong
  else if last ≥ limit then .error .aboveLimit
  else if address.toNat / page ≠ last / page then .error .crossesPage
  else .ok ()

end Diskette.Pc.BounceBuffer
