/-! Text as UTF-8 bytes, and UTF-8 bytes as text. Bytes that form no character show as replacement
characters. -/
namespace Diskette.Utf8

def bytes (text : String) : List UInt8 := text.toUTF8.data.toList

@[simp] theorem bytes_append (s t : String) : bytes (s ++ t) = bytes s ++ bytes t := by
  simp [bytes, String.toByteArray_append]

/-- A character in the making: its value so far, the bytes still to come and the range that the next
one of them has to be in. -/
structure Pending where
  value : Nat
  left : Nat
  low : UInt8 := 0x80
  high : UInt8 := 0xBF

def replacement : Char := '\uFFFD'

/-- What a first byte starts: a whole character, one that goes on, or none. -/
def start (b : UInt8) : Sum Char (Option Pending) :=
  let n := b.toNat
  if b < 0x80 then .inl (Char.ofNat n)
  else if b < 0xC2 then .inr none
  else if b < 0xE0 then .inr (some ⟨n - 0xC0, 1, 0x80, 0xBF⟩)
  else if b = 0xE0 then .inr (some ⟨0, 2, 0xA0, 0xBF⟩)
  else if b = 0xED then .inr (some ⟨n - 0xE0, 2, 0x80, 0x9F⟩)
  else if b < 0xF0 then .inr (some ⟨n - 0xE0, 2, 0x80, 0xBF⟩)
  else if b = 0xF0 then .inr (some ⟨0, 3, 0x90, 0xBF⟩)
  else if b < 0xF4 then .inr (some ⟨n - 0xF0, 3, 0x80, 0xBF⟩)
  else if b = 0xF4 then .inr (some ⟨4, 3, 0x80, 0x8F⟩)
  else .inr none

/-- Text so far, and the character that is not complete yet. -/
structure State where
  text : String := ""
  pending : Option Pending := none

def State.begin (s : State) (b : UInt8) : State :=
  match start b with
  | .inl c => { text := s.text.push c }
  | .inr (some p) => { s with pending := some p }
  | .inr none => { text := s.text.push replacement }

def State.take (s : State) (b : UInt8) : State :=
  match s.pending with
  | none => s.begin b
  | some p =>
    if p.low ≤ b && b ≤ p.high then
      let value := p.value * 64 + (b.toNat - 0x80)
      if p.left ≤ 1 then { text := s.text.push (Char.ofNat value) }
      else { s with pending := some ⟨value, p.left - 1, 0x80, 0xBF⟩ }
    else
      State.begin { text := s.text.push replacement } b

def decode (bytes : Array UInt8) : String :=
  let s := bytes.foldl State.take {}
  if s.pending.isSome then s.text.push replacement else s.text

end Diskette.Utf8
