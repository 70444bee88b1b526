/-! The bytes a command answers with. How many there may be is known before they come. -/
namespace Diskette

/-- The longest result of any command. -/
abbrev maxResult : Nat := 7

/-- The fewest and the most bytes of a result. -/
structure ResultLength where
  fewest : Nat
  most : Nat
  deriving DecidableEq, Repr, Inhabited

namespace ResultLength

abbrev exactly (count : Nat) : ResultLength := ⟨count, count⟩

abbrev between (fewest most : Nat) : ResultLength := ⟨fewest, most⟩

end ResultLength

structure ResultBytes (n : ResultLength) where
  toList : List UInt8
  fewest_le : n.fewest ≤ toList.length
  le_most : toList.length ≤ n.most
  deriving DecidableEq, Repr

namespace ResultBytes

variable {n : ResultLength}

/-- A byte that every result of this length has. -/
def byte (r : ResultBytes n) (i : Fin n.fewest) : UInt8 :=
  r.toList.get ⟨i.val, Nat.lt_of_lt_of_le i.isLt r.fewest_le⟩

/-- A byte that may not be there. -/
def byte? (r : ResultBytes n) (i : Nat) : Option UInt8 := r.toList[i]?

theorem byte?_val (r : ResultBytes n) (i : Fin n.fewest) : r.byte? i.val = some (r.byte i) :=
  List.getElem?_eq_getElem (Nat.lt_of_lt_of_le i.isLt r.fewest_le)

end ResultBytes

end Diskette
