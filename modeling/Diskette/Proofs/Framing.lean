import Diskette.Command.Encoding
import Diskette.Simulated.Order
import Mathlib.Tactic.SplitIfs

/-!
Commands on the wire. The bytes of a command are as many as the controller expects from the first of
them, and the controller reads out of them what was put in.
-/
namespace Diskette

open Simulated (Extent Order)

/-- The sectors of a run on a drive, as the controller counts them. -/
def SectorSpan.extent (span : SectorSpan) (drive : Drive) : Extent :=
  ⟨⟨drive, span.cylinder, span.head, span.sector⟩, span.sizeCode, UInt8.ofNat span.lastSector⟩

/-- What a command means to the controller. -/
def Command.order (drive : Drive) : Command → Order
  | recalibrate => .recalibrate drive
  | seek cylinder => .seek drive 0 cylinder
  | seekRelative offset => .step drive (offset < 0) (UInt8.ofNat offset.toInt.natAbs)
  | senseInterrupt => .senseInterrupt
  | senseDrive => .senseDrive drive 0
  | readId head => .readId drive head
  | read span => .transfer false (span.extent drive)
  | write span => .transfer true (span.extent drive)
  | specify _ path => .specify (path == .port)
  | version => .version

section

variable {bytes rest : List UInt8} {b b' : UInt8}

theorem Simulated.Order.headD_append_cons (bytes rest : List UInt8) (b : UInt8) :
    (bytes ++ b :: rest).headD 0 = (bytes ++ [b]).headD 0 := by
  cases bytes <;> rfl

/-- A command that is whole in the end is not so with a byte still to come. -/
theorem Simulated.Order.length_ne_of_more
    (hwhole : (bytes ++ b :: b' :: rest).length = Order.length ((bytes ++ b :: b' :: rest).headD 0)) :
    (bytes ++ [b]).length ≠ Order.length ((bytes ++ [b]).headD 0) := by
  rw [← Order.headD_append_cons bytes (b' :: rest), ← hwhole]
  simp

end

theorem byte_forall {P : UInt8 → Prop} (h : ∀ n < 256, P (UInt8.ofNat n)) (b : UInt8) : P b := by
  have hb := h b.toNat b.toNat_lt
  rwa [UInt8.ofNat_toNat] at hb

namespace SectorSpan

variable {span : SectorSpan}

theorem validate_eq_ok_iff : span.validate = .ok () ↔
    span.head ≤ 1 ∧ span.sector ≠ 0 ∧ span.count ≠ 0 ∧ span.sizeCode ≤ 7 ∧
      span.lastSector ≤ 255 := by
  unfold validate
  split_ifs <;> simp_all [← UInt8.not_lt]

/-- No size code that is let through shifts a bit away. -/
theorem sectorBytes_eq_shift (h : span.validate = .ok ()) : span.sectorBytes = 128 <<< span.sizeCode.toNat := by
  obtain ⟨-, -, -, hsize, -⟩ := validate_eq_ok_iff.mp h
  have hwhole : ∀ n ≤ 7, 128 <<< n % UInt64.size = 128 <<< n := by decide
  have hn : span.sizeCode.toNat ≤ 7 := UInt8.le_iff_toNat_le.mp hsize
  unfold sectorBytes
  rw [if_pos (by omega)]
  exact hwhole _ hn

theorem sectorBytes_le (h : span.validate = .ok ()) : span.sectorBytes ≤ 16384 := by
  obtain ⟨-, -, -, hsize, -⟩ := validate_eq_ok_iff.mp h
  have hbound : ∀ n ≤ 7, 128 <<< n ≤ 16384 := by decide
  rw [sectorBytes_eq_shift h]
  exact hbound _ (UInt8.le_iff_toNat_le.mp hsize)

theorem sectorBytes_extent (h : span.validate = .ok ()) (drive : Drive) :
    (span.extent drive).sectorBytes = span.sectorBytes := by
  obtain ⟨-, -, -, hsize, -⟩ := validate_eq_ok_iff.mp h
  have hn : span.sizeCode.toNat ≤ 7 := UInt8.le_iff_toNat_le.mp hsize
  unfold sectorBytes
  rw [if_pos (by omega)]
  rfl

theorem sectors_extent (h : span.validate = .ok ()) (drive : Drive) :
    (span.extent drive).sectors = span.count.toNat := by
  obtain ⟨-, -, hcount, -, hlast⟩ := validate_eq_ok_iff.mp h
  have hpos : span.count.toNat ≠ 0 := fun h0 => hcount (UInt8.toNat_inj.mp h0)
  have hlast' : (UInt8.ofNat span.lastSector).toNat = span.lastSector :=
    UInt8.toNat_ofNat_of_lt' (Nat.lt_succ_of_le hlast)
  simp only [extent, Extent.sectors, hlast']
  unfold lastSector
  omega

theorem count_mul_sectorBytes_le (h : span.validate = .ok ()) :
    span.count.toNat * span.sectorBytes ≤ 256 * 16384 :=
  Nat.mul_le_mul (Nat.le_of_lt span.count.toNat_lt) (sectorBytes_le h)

theorem byteLength_eq (h : span.validate = .ok ()) :
    span.byteLength = span.count.toNat * span.sectorBytes :=
  Nat.min_eq_left (Nat.le_trans (count_mul_sectorBytes_le h) (by decide))

theorem byteLength_eq_shift (h : span.validate = .ok ()) :
    span.byteLength = span.count.toNat * (128 <<< span.sizeCode.toNat) := by
  rw [byteLength_eq h, sectorBytes_eq_shift h]

theorem byteLength_lt (h : span.validate = .ok ()) : span.byteLength < UInt32.size := by
  rw [byteLength_eq h]
  exact Nat.lt_of_le_of_lt (count_mul_sectorBytes_le h) (by decide)

theorem byteLength_pos (h : span.validate = .ok ()) : 0 < span.byteLength := by
  obtain ⟨-, -, hcount, -, -⟩ := validate_eq_ok_iff.mp h
  have hsome : 0 < span.count.toNat := Nat.pos_of_ne_zero fun h0 => hcount (UInt8.toNat_inj.mp h0)
  have hsector : 0 < 128 <<< span.sizeCode.toNat := by
    rw [Nat.shiftLeft_eq]
    exact Nat.mul_pos (by decide) (Nat.two_pow_pos _)
  rw [byteLength_eq_shift h]
  exact Nat.mul_pos hsome hsector

theorem byteLength_extent (h : span.validate = .ok ()) (drive : Drive) :
    (span.extent drive).byteLength = span.byteLength := by
  rw [byteLength_eq h, Extent.byteLength, sectors_extent h, sectorBytes_extent h]

end SectorSpan

namespace Command

theorem ofBits_unit (drive : Drive) (head : UInt8) : Drive.ofBits (unit drive head) = drive := by
  refine byte_forall (P := fun head => Drive.ofBits (unit drive head) = drive) ?_ head
  cases drive <;> decide +kernel

theorem head_unit (drive : Drive) {head : UInt8} (hhead : head ≤ 1) :
    unit drive head >>> 2 &&& 1 = head := by
  have h : ∀ n ≤ 1, unit drive (UInt8.ofNat n) >>> 2 &&& 1 = UInt8.ofNat n := by
    cases drive <;> decide
  simpa using h head.toNat (UInt8.le_iff_toNat_le.mp hhead)

theorem port_bit (headLoad : UInt8) (on : Bool) :
    (((headLoad <<< 1) ||| bitIf on 1) &&& 1 != 0) = on := by
  revert on
  refine byte_forall (P := fun b => ∀ on, (((b <<< 1) ||| bitIf on 1) &&& 1 != 0) = on) ?_ headLoad
  decide +kernel

theorem length_bytes (command : Command) (drive : Drive) (flags : RecordingMode) :
    (command.bytes drive flags).length =
      Order.length ((command.bytes drive flags).headD 0) := by
  obtain ⟨multiTrack, mfm⟩ := flags
  cases command with
  | seekRelative offset =>
    simp only [bytes, List.length_cons, List.length_nil, List.headD_cons]
    cases decide (offset < 0) <;> decide
  | _ =>
    simp only [bytes, dataBytes, List.length_cons, List.length_nil, List.headD_cons]
    revert multiTrack mfm
    decide

theorem ofBytes_bytes {command : Command} (h : command.validate = .ok ()) (drive : Drive)
    (flags : RecordingMode) : Order.ofBytes (command.bytes drive flags) = command.order drive := by
  obtain ⟨multiTrack, mfm⟩ := flags
  cases command with
  | seekRelative offset =>
    by_cases hneg : offset < 0 <;>
      simp +decide [bytes, order, Order.ofBytes, hneg, bitIf, Opcode.relativeSeek]
  | specify t path => simp +decide [bytes, order, Order.ofBytes, port_bit]
  | readId head =>
    have hhead : head ≤ 1 := by
      change (if head > 1 then Except.error Rejection.headOutOfRange else .ok ()) = _ at h
      split_ifs at h with hlt
      exact UInt8.not_lt.mp hlt
    cases mfm <;>
      simp +decide [bytes, order, Order.ofBytes, ofBits_unit, head_unit drive hhead, bitIf,
        Opcode.readId]
  | _ =>
    cases multiTrack <;> cases mfm <;>
      simp +decide [bytes, order, Order.ofBytes, dataBytes, ofBits_unit, head_unit, bitIf,
        SectorSpan.extent, Opcode.readData, Opcode.writeData]

end Command
end Diskette
