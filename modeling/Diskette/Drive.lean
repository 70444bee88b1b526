/-! The four drives a controller can address. -/
namespace Diskette

inductive Drive
  | a | b | c | d
  deriving DecidableEq, Repr, Inhabited

namespace Drive

def all : List Drive := [a, b, c, d]

def index : Drive → UInt8
  | a => 0
  | b => 1
  | c => 2
  | d => 3

/-- The drive of an index, which must be below four. -/
def ofIndex? (i : UInt8) : Option Drive :=
  if i = 0 then some a
  else if i = 1 then some b
  else if i = 2 then some c
  else if i = 3 then some d
  else none

/-- The drive selected by the two low bits of a byte. -/
def ofBits (bits : UInt8) : Drive :=
  if bits &&& 3 = 0 then a
  else if bits &&& 3 = 1 then b
  else if bits &&& 3 = 2 then c
  else d

@[simp] theorem ofIndex?_index (drive : Drive) : ofIndex? drive.index = some drive := by
  cases drive <;> rfl

@[simp] theorem ofBits_index (drive : Drive) : ofBits drive.index = drive := by
  cases drive <;> rfl

end Drive

end Diskette
