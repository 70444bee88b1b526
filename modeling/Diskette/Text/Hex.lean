/-! Lower-case hexadecimal text. -/
namespace Diskette.Hex

/-- The digits of a number, the most significant one first and none too many. -/
def digits (n : Nat) : String := String.ofList (Nat.toDigits 16 n)

/-- Two digits. -/
def byte (b : UInt8) : String :=
  String.ofList [Nat.digitChar (b.toNat / 16), Nat.digitChar (b.toNat % 16)]

def bytes (bs : List UInt8) : String := String.join (bs.map byte)

/-- A number as it is written in messages, with its radix. -/
def tagged (n : Nat) : String := "0x" ++ digits n

def taggedByte (b : UInt8) : String := "0x" ++ byte b

end Diskette.Hex
