import Diskette.ChannelTransfer
import Diskette.Pc.Assembly
import Diskette.Pc.BounceBuffer
import Diskette.Pc.Emulated
import Diskette.Proofs.Residue.Chip

/-!
What is left of a transfer through a DMA channel. A channel that has been set up for some bytes of a buffer that was
accepted moves those and no others, in their order; and however many have moved, it tells.
-/
namespace Diskette

open Pc

namespace Chip

/-- A PC with the chip. -/
def board {ω : Type} (a : Assembly) (rest : Machine Cpu ω) : Machine Platform (Chip × ω) :=
  (mounted rest).through a.serve

variable {ω : Type} {rest : Machine Cpu ω} {chip : Chip} {world : ω} {channel value : UInt8} {port : UInt16}
  {register : Register} {α : Type} {a : Assembly}

theorem run_output (h : register? port = some register) (value : UInt8) (next : Unit → Code α) :
    (Program.call (.output port value) next : Code α).run (mounted rest) (chip, world) =
      (next ()).run (mounted rest) (chip.write value register, world) := by
  simp [Program.run, mounted, h]

theorem run_input (h : register? port = some register) (next : UInt8 → Code α) :
    (Program.call (.input port) next : Code α).run (mounted rest) (chip, world) =
      (next (chip.read register).1).run (mounted rest) ((chip.read register).2, world) := by
  simp [Program.run, mounted, h]

/-- A word goes to a register after the flip-flop is cleared, its lower byte first. -/
theorem run_outputWord (h : register? port = some register) (word : UInt16) :
    (DmaController.outputWord port word).run (mounted rest) (chip, world) =
      ((), chip.writeWord word register, world) := by
  have hclear : register? DmaController.clearPort = some .clear := rfl
  simp only [DmaController.outputWord, Cpu.output, Program.call_bind, Program.done_bind]
  rw [run_output hclear, run_output h, run_output h]
  rfl

theorem run_channel (c : Diskette.Channel.Call) (next : Diskette.Channel.Reply c → Routine α) (s : Chip × ω) :
    (Program.call (.channel channel c) next : Routine α).run (board a rest) s =
      (next ((DmaController.serve channel c).run (mounted rest) s).1).run (board a rest)
        ((DmaController.serve channel c).run (mounted rest) s).2 := rfl

theorem lt_four (h : channel < 4) : channel = 0 ∨ channel = 1 ∨ channel = 2 ∨ channel = 3 := by
  have hlt := UInt8.lt_iff_toNat_lt.mp h
  simp only [← UInt8.toNat_inj]
  simp at hlt ⊢
  omega

section

variable (h : channel < 4)
include h

theorem register_count : register? (DmaController.countPort channel) = some (.count (named channel)) := by
  rcases lt_four h with rfl | rfl | rfl | rfl <;> rfl

theorem register_address : register? (DmaController.addressPort channel) = some (.address (named channel)) := by
  rcases lt_four h with rfl | rfl | rfl | rfl <;> rfl

theorem register_page : register? (DmaController.pagePort channel) = some (.page (named channel)) := by
  rcases lt_four h with rfl | rfl | rfl | rfl <;> rfl

theorem named_select : named (DmaController.select channel) = named channel := by
  rcases lt_four h with rfl | rfl | rfl | rfl <;> rfl

theorem named_mask : named (DmaController.select channel ||| 4) = named channel := by
  rcases lt_four h with rfl | rfl | rfl | rfl <;> rfl

theorem named_modeBits (direction : Direction) :
    named (DmaController.modeBits channel (.oneShot direction)) = named channel := by
  rcases lt_four h with rfl | rfl | rfl | rfl <;> cases direction <;> rfl

theorem run_mask : (DmaController.serve channel .mask).run (mounted rest) (chip, world) =
    ((), chip.change (named channel) fun ch => { ch with masked := true }, world) := by
  have hregister : register? DmaController.maskPort = some .mask := rfl
  have hbit : (DmaController.select channel ||| 4) &&& 4 != 0 := by
    rcases lt_four h with rfl | rfl | rfl | rfl <;> rfl
  refine (run_output hregister _ _).trans ?_
  simp [Program.run, write, named_mask h, hbit]

theorem run_unmask : (DmaController.serve channel .unmask).run (mounted rest) (chip, world) =
    ((), chip.change (named channel) fun ch => { ch with masked := false }, world) := by
  have hregister : register? DmaController.maskPort = some .mask := rfl
  have hbit : (DmaController.select channel &&& 4 != 0) = false := by
    rcases lt_four h with rfl | rfl | rfl | rfl <;> rfl
  refine (run_output hregister _ _).trans ?_
  simp [Program.run, write, named_select h, hbit]

theorem run_setMode (direction : Direction) :
    (DmaController.serve channel (.setMode (.oneShot direction))).run (mounted rest) (chip, world) =
      ((), chip.change (named channel) fun ch =>
        { ch with mode := DmaController.modeBits channel (.oneShot direction) }, world) := by
  have hregister : register? DmaController.modePort = some .mode := rfl
  refine (run_output hregister _ _).trans ?_
  simp [Program.run, write, named_modeBits h]

theorem run_loadAddress (address : UInt32) :
    (DmaController.serve channel (.loadAddress address)).run (mounted rest) (chip, world) =
      ((), { chip.change (named channel) fun ch =>
        { ch with
          page := (address >>> 16).toUInt8
          address := address.toUInt16
          baseAddress := address.toUInt16 } with upper := false }, world) := by
  change (DmaController.loadAddress channel address).run (mounted rest) (chip, world) = _
  rw [DmaController.loadAddress, Program.run_bind, run_outputWord (register_address h), writeWord_address]
  refine (run_output (register_page h) _ _).trans ?_
  simp [Program.run, write, change]

/-- The count of a number of bytes that is not zero. -/
theorem run_loadCount {length : Nat} (hpos : 1 ≤ length) (hlength : length ≤ 0xFFFF) :
    (DmaController.serve channel (.loadCount (UInt32.ofNat length))).run (mounted rest) (chip, world) =
      ((), { chip.change (named channel) fun ch =>
        { ch with count := UInt16.ofNat (length - 1), baseCount := UInt16.ofNat (length - 1) } with upper := false },
        world) := by
  have hne : UInt32.ofNat length ≠ 0 := by
    intro hzero
    have hnat := congrArg UInt32.toNat hzero
    simp at hnat
    omega
  have hcount : (UInt32.ofNat length - 1).toUInt16 = UInt16.ofNat (length - 1) := by
    apply UInt16.toNat_inj.mp
    rw [UInt32.toNat_toUInt16, UInt32.toNat_sub]
    simp
    omega
  change (DmaController.loadCount channel (UInt32.ofNat length)).run (mounted rest) (chip, world) = _
  rw [DmaController.loadCount, if_neg hne, hcount, run_outputWord (register_count h),
    writeWord_count]

/-- Whether the count has run out, which to ask clears. -/
theorem run_terminalCount : (DmaController.serve channel .terminalCount).run (mounted rest) (chip, world) =
    (chip.status &&& terminalBit (named channel) != 0, { chip with status := chip.status &&& 0xF0 }, world) := by
  have hregister : register? DmaController.statusPort = some .status := rfl
  have hbit : (1 : UInt8) <<< DmaController.select channel = terminalBit (named channel) := by
    rcases lt_four h with rfl | rfl | rfl | rfl <;> rfl
  refine (run_input hregister _).trans ?_
  simp only [read, hbit]
  rfl

/-- The register, and one more. -/
theorem run_remaining : (DmaController.serve channel .remaining).run (mounted rest) (chip, world) =
    (UInt32.ofNat (((chip.channels (named channel)).count.toNat + 1) % 0x10000), { chip with upper := false },
      world) := by
  have hclear : register? DmaController.clearPort = some .clear := rfl
  change (DmaController.remaining channel).run (mounted rest) (chip, world) = _
  simp only [DmaController.remaining, Cpu.output, Cpu.input, Program.call_bind, Program.done_bind]
  rw [run_output hclear, run_input (register_count h), run_input (register_count h), ← next_of_bytes]
  rfl

/-- A channel that is set up. -/
def prepared (channel : UInt8) (direction : Direction) (address : UInt32) (length : Nat) : Channel where
  page := (address >>> 16).toUInt8
  address := address.toUInt16
  baseAddress := address.toUInt16
  count := UInt16.ofNat (length - 1)
  baseCount := UInt16.ofNat (length - 1)
  mode := DmaController.modeBits channel (.oneShot direction)
  masked := false

theorem run_setUp (direction : Direction) (address : UInt32) {length : Nat} (hpos : 1 ≤ length)
    (hlength : length ≤ 0xFFFF) :
    (Diskette.Channel.setUp channel direction address length).run (board a rest) (chip, world) =
      ((), { chip.change (named channel) fun _ => prepared channel direction address length with
        upper := false, status := chip.status &&& 0xF0 }, world) := by
  simp only [Diskette.Channel.setUp, Platform.channel, Program.call_bind, Program.done_bind, run_channel,
    run_mask h, run_setMode h, run_loadCount h hpos hlength, run_loadAddress h, run_unmask h, run_terminalCount h]
  simp [change, prepared]
  rfl

theorem run_moved (length : Nat) : ((Diskette.Channel.moved channel length).run (board a rest) (chip, world)).1 =
    if chip.status &&& terminalBit (named channel) != 0 then length
    else length - min (((chip.channels (named channel)).count.toNat + 1) % 0x10000) length := by
  simp only [Diskette.Channel.moved, Platform.channel, Program.call_bind, Program.done_bind, run_channel,
    run_remaining h, run_terminalCount h]
  by_cases hthrough : chip.status &&& terminalBit (named channel) != 0
  · simp [hthrough, Program.run]
  · simp [hthrough, Program.run]
    omega

/-- What is to come of a transfer has not moved. -/
theorem moved_of_pending {direction : Direction} {address left length : Nat} (hleft : left ≤ length)
    (hlength : length ≤ 0xFFFF) (hpending : Pending (named channel) direction chip address left) :
    ((Diskette.Channel.moved channel length).run (board a rest) (chip, world)).1 = length - left := by
  rw [run_moved h]
  cases hpending with
  | due hdue =>
    have hcount := hdue.count
    simp [hdue.unsaid]
    omega
  | through hthrough => simp [hthrough]

/-- A channel that is set up for bytes of one page has them all to come. -/
theorem pending_setUp (chip : Chip) (direction : Direction) {address : UInt32} {length : Nat} (hpos : 1 ≤ length)
    (hreach : address.toNat < 0x1000000) (hpage : address.toNat % 0x10000 + length ≤ 0x10000) :
    Pending (named channel) direction
      { chip.change (named channel) fun _ => prepared channel direction address length with
        upper := false, status := chip.status &&& 0xF0 } address.toNat length := by
  obtain ⟨more, rfl⟩ : ∃ more, length = more + 1 := ⟨length - 1, by omega⟩
  have hlow : address.toUInt16.toNat = address.toNat % 0x10000 := UInt32.toNat_toUInt16 address
  have hpagebyte : (address >>> 16).toUInt8.toNat = address.toNat / 0x10000 := by
    rw [UInt32.toNat_toUInt8, UInt32.toNat_shiftRight, Nat.shiftRight_eq_div_pow]
    simp
    omega
  refine .due ?_
  constructor
  case unsaid => exact and_terminalBit_of_clear chip.status (named channel)
  all_goals simp only [channels_change, prepared]
  case direction => rcases lt_four h with rfl | rfl | rfl | rfl <;> cases direction <;> rfl
  case upward => rcases lt_four h with rfl | rfl | rfl | rfl <;> cases direction <;> rfl
  case count =>
    simp
    omega
  case address =>
    rw [hlow, hpagebyte]
    omega
  case within =>
    rw [hlow]
    omega

end

end Chip

namespace Pc.BounceBuffer

/-- A channel can reach all of a buffer, and tell how much of it has moved. -/
structure Reachable (address : UInt32) (size : Nat) : Prop where
  some : 1 ≤ size
  few : size ≤ 0xFFFF
  below : ∀ i < size, address.toNat + i < 0x1000000
  paged : ∀ i < size, (address.toNat + i) / 0x10000 = address.toNat / 0x10000

theorem validate_eq_ok_iff (address : UInt32) (size : Nat) :
    validate address size = .ok () ↔ Reachable address size := by
  constructor
  · intro h
    dsimp only [validate, limit, page, maxLength] at h
    by_cases hempty : size = 0
    · simp [hempty] at h
    by_cases hlong : size > 0xFFFF
    · simp [hempty, hlong] at h
    by_cases habove : address.toNat + size - 1 ≥ 0x1000000
    · simp [hempty, hlong, habove] at h
    by_cases hcross : address.toNat / 0x10000 = (address.toNat + size - 1) / 0x10000
    · constructor
      case some => omega
      case few => omega
      case below =>
        intro i hi
        omega
      case paged =>
        intro i hi
        omega
    · simp [hempty, hlong, habove, hcross] at h
  · intro h
    have hsome := h.some
    have hbelow := h.below (size - 1) (by omega)
    have hpaged := h.paged (size - 1) (by omega)
    have hend : address.toNat + (size - 1) = address.toNat + size - 1 := by omega
    rw [hend] at hbelow hpaged
    have hempty : ¬size = 0 := by omega
    have hlong : ¬size > maxLength := Nat.not_lt.mpr h.few
    have habove : ¬address.toNat + size - 1 ≥ limit := Nat.not_le.mpr hbelow
    have hcross : ¬address.toNat / page ≠ (address.toNat + size - 1) / page := not_not.mpr hpaged.symm
    dsimp only [validate]
    rw [if_neg hempty, if_neg hlong, if_neg habove, if_neg hcross]

theorem Reachable.within {address : UInt32} {size : Nat} (h : Reachable address size) :
    address.toNat < 0x1000000 ∧ address.toNat % 0x10000 + size ≤ 0x10000 := by
  have hsome := h.some
  have hfirst := h.below 0 (by omega)
  have hlast := h.paged (size - 1) (by omega)
  omega

end Pc.BounceBuffer

/-- What a transfer through a channel comes to after some of its bytes. -/
structure Chip.Conveyed {ω : Type} (a : Assembly) (rest : Machine Cpu ω) (channel : UInt8) (direction : Direction)
    (address : UInt32) (size length count : Nat) (chip : Chip) : Prop where
  /-- They are those at the front of the buffer. -/
  moved : (chip.requests (named channel) count).1 =
    (List.range count).map fun i => ⟨direction, address.toNat + i⟩
  inside : ∀ access ∈ (chip.requests (named channel) count).1,
    address.toNat ≤ access.address ∧ access.address < address.toNat + size
  /-- The driver finds out how many they are. -/
  told : ∀ world, ((Channel.moved channel length).run (board a rest)
    ((chip.requests (named channel) count).2, world)).1 = count

/-- A buffer is accepted if and only if a channel can reach all of it and tell any part of it by its length; and any
part of a transfer to or from one that was accepted moves through the channel as it should, and is told. -/
theorem residue_exact {ω : Type} (a : Assembly) (rest : Machine Cpu ω) (address : UInt32) (size : Nat) :
    (BounceBuffer.validate address size = .ok () ↔ BounceBuffer.Reachable address size) ∧
      (BounceBuffer.validate address size = .ok () →
        ∀ (channel : UInt8) (direction : Direction) (length count : Nat) (chip : Chip) (world : ω),
          channel < 4 → 1 ≤ length → length ≤ size → count ≤ length →
            Chip.Conveyed a rest channel direction address size length count
              ((Channel.setUp channel direction address length).run (Chip.board a rest) (chip, world)).2.1) := by
  refine ⟨BounceBuffer.validate_eq_ok_iff address size, ?_⟩
  intro hvalid channel direction length count chip world hchannel hpos hlength hcount
  have hreach := (BounceBuffer.validate_eq_ok_iff address size).mp hvalid
  have hfew := hreach.few
  obtain ⟨hbelow, hpage⟩ := hreach.within
  rw [Chip.run_setUp hchannel direction address hpos (by omega)]
  have hpending := Chip.pending_setUp hchannel chip direction hpos hbelow (by omega)
  obtain ⟨hmoved, hleft⟩ := hpending.requests hcount
  constructor
  case moved => exact hmoved
  case inside =>
    intro access haccess
    rw [hmoved, List.mem_map] at haccess
    obtain ⟨i, hi, rfl⟩ := haccess
    have hlt := List.mem_range.mp hi
    constructor
    · exact Nat.le_add_right ..
    · simp only
      omega
  case told =>
    intro world'
    rw [Chip.moved_of_pending hchannel (by omega) (by omega) hleft]
    omega

/-- A buffer of all the bytes that a channel can tell, up to the last address that it can reach. -/
theorem residue_exact_last : BounceBuffer.validate 0xFF0001 0xFFFF = .ok () ∧
    Chip.Conveyed default Emulated.machine 2 .toMemory 0xFF0001 0xFFFF 0xFFFF 0xFFFF
      ((Channel.setUp 2 .toMemory 0xFF0001 0xFFFF).run (Chip.board default Emulated.machine)
        (⟨fun _ => ⟨0, 0, 0, 0, 0, 0, true⟩, true, 0xFF, true⟩, {})).2.1 := by
  have hvalid : BounceBuffer.validate 0xFF0001 0xFFFF = .ok () := by
    simp [BounceBuffer.validate, BounceBuffer.maxLength, BounceBuffer.limit, BounceBuffer.page]
  have hexact := residue_exact default Emulated.machine 0xFF0001 0xFFFF
  exact ⟨hvalid, hexact.2 hvalid 2 .toMemory 0xFFFF 0xFFFF _ _ (by decide) (by decide) (by decide) (by decide)⟩

end Diskette
