import Diskette.Pc.DmaController
import Mathlib.Logic.Function.Basic

/-!
An 8237 to set the code for a channel against. Its registers are behind ports, a byte at a time, and a flip-flop tells
which byte of a word is next. At each request of its device a channel moves a byte between the device and memory.
-/
namespace Diskette

structure Chip.Channel where
  /-- The upper byte of every address. -/
  page : UInt8
  address : UInt16
  baseAddress : UInt16
  /-- One less than the bytes to come. -/
  count : UInt16
  baseCount : UInt16
  mode : UInt8
  masked : Bool

structure Chip where
  channels : Fin 4 → Chip.Channel
  /-- The next byte of a word is its upper one. -/
  upper : Bool
  /-- Requests, and below them the channels whose count has run out. -/
  status : UInt8
  /-- It starts a count over when that has run out, whatever the mode. -/
  reloads : Bool

namespace Chip

inductive Register
  | address (n : Fin 4)
  | count (n : Fin 4)
  | page (n : Fin 4)
  | status | mask | mode | clear
  deriving DecidableEq

def register? (port : UInt16) : Option Register :=
  if port = 0x08 then some .status
  else if port = 0x0A then some .mask
  else if port = 0x0B then some .mode
  else if port = 0x0C then some .clear
  else if port = 0x87 then some (.page 0)
  else if port = 0x83 then some (.page 1)
  else if port = 0x81 then some (.page 2)
  else if port = 0x82 then some (.page 3)
  else if port < 8 then
    some (if port % 2 = 0 then .address (Fin.ofNat 4 (port.toNat / 2)) else .count (Fin.ofNat 4 (port.toNat / 2)))
  else none

/-- One byte of a word. -/
def byteOf (word : UInt16) (upper : Bool) : UInt8 :=
  UInt8.ofNat (if upper then word.toNat / 256 else word.toNat)

/-- A word with one byte replaced. -/
def withByte (word : UInt16) (upper : Bool) (value : UInt8) : UInt16 :=
  UInt16.ofNat (if upper then value.toNat * 256 + word.toNat % 256 else word.toNat / 256 * 256 + value.toNat)

variable (chip : Chip)

def change (n : Fin 4) (f : Channel → Channel) : Chip :=
  { chip with channels := Function.update chip.channels n (f (chip.channels n)) }

/-- The channel that the lower bits of a byte name. -/
def named (value : UInt8) : Fin 4 := Fin.ofNat 4 value.toNat

def write (value : UInt8) : Register → Chip
  | .address n => { chip.change n fun ch =>
      { ch with
        address := withByte ch.address chip.upper value
        baseAddress := withByte ch.baseAddress chip.upper value } with upper := !chip.upper }
  | .count n => { chip.change n fun ch =>
      { ch with
        count := withByte ch.count chip.upper value
        baseCount := withByte ch.baseCount chip.upper value } with upper := !chip.upper }
  | .page n => chip.change n fun ch => { ch with page := value }
  | .mask => chip.change (named value) fun ch => { ch with masked := value &&& 4 != 0 }
  | .mode => chip.change (named value) fun ch => { ch with mode := value }
  | .clear => { chip with upper := false }
  | .status => chip

/-- The two bytes of a word, one after the other. -/
def writeWord (word : UInt16) (register : Register) : Chip :=
  ((chip.write 0xFF .clear).write word.toUInt8 register).write (word >>> 8).toUInt8 register

/-- To read the status clears what it says of the counts. -/
def read : Register → UInt8 × Chip
  | .address n => (byteOf (chip.channels n).address chip.upper, { chip with upper := !chip.upper })
  | .count n => (byteOf (chip.channels n).count chip.upper, { chip with upper := !chip.upper })
  | .page n => ((chip.channels n).page, chip)
  | .status => (chip.status, { chip with status := chip.status &&& 0xF0 })
  | .mask | .mode | .clear => (0xFF, chip)

/-- A processor with the chip beside whatever else there is. -/
def mounted {ω : Type} (rest : Machine Pc.Cpu ω) : Machine Pc.Cpu (Chip × ω) where
  step
    | .input port, (chip, world) =>
      match register? port with
      | some register =>
        let (reply, chip) := chip.read register
        (reply, chip, world)
      | none =>
        let (reply, world) := rest.step (.input port) world
        (reply, chip, world)
    | .output port value, (chip, world) =>
      match register? port with
      | some register => ((), chip.write value register, world)
      | none => ((), chip, (rest.step (.output port value) world).2)
    | c, (chip, world) =>
      let (reply, world) := rest.step c world
      (reply, chip, world)

/-- A byte moved, and the way it went. -/
structure Access where
  direction : Direction
  address : Nat
  deriving DecidableEq, Repr

/-- Which way a channel moves bytes, if it does. -/
def direction? (mode : UInt8) : Option Direction :=
  if mode &&& 0x0C = 0x04 then some .toMemory
  else if mode &&& 0x0C = 0x08 then some .fromMemory
  else none

/-- The bit of the status that says the count of a channel has run out. -/
def terminalBit (n : Fin 4) : UInt8 := 1 <<< UInt8.ofNat n

namespace Channel

variable (ch : Channel)

def access? : Option Access :=
  (direction? ch.mode).map fun direction => ⟨direction, ch.page.toNat * 0x10000 + ch.address.toNat⟩

/-- After a byte. A count that has run out starts over if the mode says so, and otherwise masks the channel. -/
def advance (reloads : Bool) : Channel :=
  let address := if ch.mode &&& 0x20 = 0 then ch.address + 1 else ch.address - 1
  if ch.count = 0 then
    if ch.mode &&& 0x10 = 0 then
      { ch with address, count := if reloads then ch.baseCount else 0xFFFF, masked := true }
    else { ch with address := ch.baseAddress, count := ch.baseCount }
  else { ch with address, count := ch.count - 1 }

end Channel

/-- A request of the device on a channel. -/
def request (n : Fin 4) : List Access × Chip :=
  let ch := chip.channels n
  if ch.masked then ([], chip)
  else
    (ch.access?.toList, { chip.change n (·.advance chip.reloads) with
      status := if ch.count = 0 then chip.status ||| terminalBit n else chip.status })

def requests (n : Fin 4) : Nat → Chip → List Access × Chip
  | 0, chip => ([], chip)
  | count + 1, chip =>
    let (first, chip) := chip.request n
    let (rest, chip) := requests n count chip
    (first ++ rest, chip)

theorem withByte_bytes (word value : UInt16) :
    withByte (withByte word false value.toUInt8) true (value >>> 8).toUInt8 = value := by
  apply UInt16.toNat_inj.mp
  have hword := word.toNat_lt
  have hvalue := value.toNat_lt
  simp only [withByte, UInt16.toNat_ofNat, UInt16.toNat_toUInt8, UInt16.toNat_shiftRight, Nat.shiftRight_eq_div_pow]
  simp
  omega

theorem toNat_byteOf (word : UInt16) (upper : Bool) :
    (byteOf word upper).toNat = if upper then word.toNat / 256 else word.toNat % 256 := by
  have hword := word.toNat_lt
  cases upper
  · simp [byteOf]
  · simp [byteOf]
    omega

theorem toNat_join (word : UInt16) :
    ((byteOf word true).toUInt32 <<< 8 ||| (byteOf word false).toUInt32).toNat = word.toNat := by
  have hword : word.toNat < 2 ^ 16 := word.toNat_lt
  have hlow : word.toNat % 256 < 2 ^ 8 := Nat.mod_lt _ (by decide)
  have hshift : (8 : UInt32).toNat % 32 = 8 := rfl
  have hfits : (word.toNat / 256) <<< 8 < 2 ^ 32 := by
    rw [Nat.shiftLeft_eq]
    omega
  rw [UInt32.toNat_or, UInt32.toNat_shiftLeft, UInt8.toNat_toUInt32, UInt8.toNat_toUInt32, toNat_byteOf, toNat_byteOf,
    if_pos rfl, if_neg Bool.false_ne_true, hshift, Nat.mod_eq_of_lt hfits, ← Nat.shiftLeft_add_eq_or_of_lt hlow,
    Nat.shiftLeft_eq]
  omega

/-- The two bytes of a count, put together, and one more. -/
theorem next_of_bytes (word : UInt16) :
    ((((byteOf word true).toUInt32 <<< 8) ||| (byteOf word false).toUInt32) + 1) &&& 0xFFFF =
      UInt32.ofNat ((word.toNat + 1) % 0x10000) := by
  have hword : word.toNat < 2 ^ 16 := word.toNat_lt
  have hmask : (0xFFFF : UInt32).toNat = 2 ^ 16 - 1 := rfl
  apply UInt32.toNat_inj.mp
  rw [UInt32.toNat_and, UInt32.toNat_add, toNat_join, hmask, Nat.and_two_pow_sub_one_eq_mod]
  simp
  omega

section

variable {chip} {n : Fin 4} {f : Channel → Channel}

@[simp] theorem channels_change : (chip.change n f).channels n = f (chip.channels n) := Function.update_self ..

theorem writeWord_count (word : UInt16) : chip.writeWord word (.count n) =
    { chip.change n fun ch => { ch with count := word, baseCount := word } with upper := false } := by
  simp [writeWord, write, change, withByte_bytes]

theorem writeWord_address (word : UInt16) : chip.writeWord word (.address n) =
    { chip.change n fun ch => { ch with address := word, baseAddress := word } with upper := false } := by
  simp [writeWord, write, change, withByte_bytes]

end

theorem and_terminalBit_of_clear (status : UInt8) (n : Fin 4) : status &&& 0xF0 &&& terminalBit n = 0 := by
  have hbit : 0xF0 &&& terminalBit n = 0 := by decide +revert
  rw [UInt8.and_assoc, hbit, UInt8.and_zero]

theorem or_and_self (status bit : UInt8) : (status ||| bit) &&& bit = bit := by
  apply UInt8.toBitVec_inj.mp
  ext i hi
  simp +contextual

theorem and_terminalBit_of_set (status : UInt8) (n : Fin 4) : (status ||| terminalBit n) &&& terminalBit n ≠ 0 := by
  rw [or_and_self]
  decide +revert

/-- A byte is due on a channel at an address, and some more after it, none of them beyond the page. -/
structure Due (n : Fin 4) (direction : Direction) (chip : Chip) (address more : Nat) : Prop where
  unmasked : (chip.channels n).masked = false
  direction : direction? (chip.channels n).mode = some direction
  upward : (chip.channels n).mode &&& 0x20 = 0
  count : (chip.channels n).count.toNat = more
  address : (chip.channels n).page.toNat * 0x10000 + (chip.channels n).address.toNat = address
  within : (chip.channels n).address.toNat + more < 0x10000
  unsaid : chip.status &&& terminalBit n = 0

/-- So many bytes are to come through a channel, or it is through. -/
inductive Pending (n : Fin 4) (direction : Direction) (chip : Chip) (address : Nat) : Nat → Prop
  | due {more : Nat} : Due n direction chip address more → Pending n direction chip address (more + 1)
  | through : chip.status &&& terminalBit n ≠ 0 → Pending n direction chip address 0

section

variable {chip} {n : Fin 4} {direction : Direction} {address more : Nat}

/-- A byte that is due goes where it should. -/
theorem Due.access (h : Due n direction chip address more) : (chip.request n).1 = [⟨direction, address⟩] := by
  simp [request, h.unmasked, Channel.access?, h.direction, h.address]

/-- The last byte leaves it to the status that the channel is through. -/
theorem Due.last (h : Due n direction chip address 0) : (chip.request n).2.status &&& terminalBit n ≠ 0 := by
  have hcount : (chip.channels n).count = 0 := UInt16.toNat_inj.mp h.count
  have hstatus : (chip.request n).2.status = chip.status ||| terminalBit n := by
    simp [request, h.unmasked, hcount]
  rw [hstatus]
  exact and_terminalBit_of_set chip.status n

/-- Any other leaves the channel with the next one. -/
theorem Due.next (h : Due n direction chip address (more + 1)) :
    Due n direction (chip.request n).2 (address + 1) more := by
  have hcount := h.count
  have haddress := h.address
  have hwithin := h.within
  have hne : (chip.channels n).count ≠ 0 := by
    intro hzero
    rw [hzero] at hcount
    exact absurd hcount (by simp)
  have hchannel : (chip.request n).2.channels n =
      { chip.channels n with
        address := (chip.channels n).address + 1
        count := (chip.channels n).count - 1 } := by
    simp [request, h.unmasked, Channel.advance, h.upward, hne, change]
  have hstatus : (chip.request n).2.status = chip.status := by simp [request, h.unmasked, hne]
  have hforward : ((chip.channels n).address + 1).toNat = (chip.channels n).address.toNat + 1 := by
    rw [UInt16.toNat_add]
    simp
    omega
  constructor
  case count =>
    rw [hchannel, UInt16.toNat_sub]
    have hlt := (chip.channels n).count.toNat_lt
    simp
    omega
  case address =>
    rw [hchannel]
    simp only [hforward]
    omega
  case within =>
    rw [hchannel]
    simp only [hforward]
    omega
  case unsaid => rw [hstatus, h.unsaid]
  all_goals rw [hchannel]
  · exact h.unmasked
  · exact h.direction
  · exact h.upward

theorem Pending.request {left : Nat} (h : Pending n direction chip address (left + 1)) :
    (chip.request n).1 = [⟨direction, address⟩] ∧
      Pending n direction (chip.request n).2 (address + 1) left := by
  cases h with
  | due hdue =>
    refine ⟨hdue.access, ?_⟩
    cases left with
    | zero => exact .through hdue.last
    | succ left => exact .due hdue.next

/-- Requests take the bytes in their order, as long as there are any to come. -/
theorem Pending.requests {left count : Nat} (h : Pending n direction chip address left) (hcount : count ≤ left) :
    (chip.requests n count).1 = (List.range count).map (fun i => ⟨direction, address + i⟩) ∧
      Pending n direction (chip.requests n count).2 (address + count) (left - count) := by
  induction count generalizing chip address left with
  | zero => exact ⟨rfl, h⟩
  | succ count ih =>
    obtain ⟨left, rfl⟩ : ∃ left', left = left' + 1 := ⟨left - 1, by omega⟩
    obtain ⟨hfirst, hnext⟩ := h.request
    obtain ⟨hrest, hleft⟩ := ih hnext (by omega)
    have hsplit : (List.range (count + 1)).map (fun i => Access.mk direction (address + i)) =
        [⟨direction, address⟩] ++ (List.range count).map fun i => ⟨direction, address + 1 + i⟩ := by
      rw [List.range_succ_eq_map, List.map_cons, List.map_map]
      simp [Function.comp_def, Nat.add_assoc, Nat.add_comm 1]
    constructor
    · rw [hsplit, ← hfirst, ← hrest]
      rfl
    · have haddress : address + (count + 1) = address + 1 + count := by omega
      rw [Nat.add_sub_add_right, haddress]
      exact hleft

end

end Chip

end Diskette
