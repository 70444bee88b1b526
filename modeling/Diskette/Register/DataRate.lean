/-! The data rate, which is all that the configuration control register holds. -/
namespace Diskette

inductive DataRate
  | kbps500 | kbps300 | kbps250 | mbps1
  deriving DecidableEq, Repr, Inhabited

namespace DataRate

def encode : DataRate → UInt8
  | kbps500 => 0
  | kbps300 => 1
  | kbps250 => 2
  | mbps1 => 3

/-- Only the two low bits matter. -/
def decode (bits : UInt8) : DataRate :=
  if bits &&& 3 = 0 then kbps500
  else if bits &&& 3 = 1 then kbps300
  else if bits &&& 3 = 2 then kbps250
  else mbps1

@[simp] theorem decode_encode (r : DataRate) : decode r.encode = r := by
  cases r <;> rfl

end DataRate

end Diskette
