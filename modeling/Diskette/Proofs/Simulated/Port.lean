import Diskette.Proofs.Simulated.Channel

/-!
A payload through the data port of a simulated controller, which asks for each byte of it in turn, and
ends the command with the last one.
-/
namespace Diskette

open Simulated
open Diskette.Core (surroundings)

variable {k k' : Core} {m : Simulated} {base : UInt16} {x : Extent}

namespace Core

/-- A payload that the controller gives: what is left of it, and how much is gone. -/
def giving (k : Core) (x : Extent) (left : List UInt8) (gone : Nat) : Core :=
  if left = [] then k.answer (x.result (x.unit ||| 0x40) endOfCylinder 0)
  else { k with fdc := { k.fdc with stage := .reading left gone x } }

/-- A payload that the controller takes: what has come of it so far. -/
def taking (k : Core) (x : Extent) (taken : List UInt8) : Core :=
  if taken.length = x.byteLength then
    { k with fdc := { k.fdc with disk := k.fdc.disk.write x taken } }.answer
      (x.result (x.unit ||| 0x40) endOfCylinder 0)
  else { k with fdc := { k.fdc with stage := .writing taken.toArray x } }

theorem same_giving (k : Core) (x : Extent) (left : List UInt8) (gone : Nat) :
    Same k (k.giving x left gone) := by
  unfold giving
  split
  · exact same_answer k _
  · exact ⟨rfl, rfl, rfl, rfl, rfl, rfl, rfl, rfl⟩

theorem At.taking (h : At base k) (x : Extent) (taken : List UInt8) : At base (k.taking x taken) := by
  unfold Core.taking
  split <;> exact ⟨h.present, h.base_eq, h.room⟩

theorem status_giving (hreset : k.fdc.inReset = false) (hlimit : k.faults.portLimit = none)
    (b : UInt8) (left : List UInt8) (gone : Nat) :
    (k.giving x (b :: left) gone).status = ⟨0xF0⟩ := by
  change (⟨if k.fdc.inReset then 0x00 else if k.faults.portLimit = some gone then 0x30 else 0xF0⟩ :
    MainStatus) = _
  rw [hreset, hlimit]
  rfl

theorem status_taking (hreset : k.fdc.inReset = false) (hlimit : k.faults.portLimit = none)
    {taken : List UInt8} (hmore : taken.length ≠ x.byteLength) :
    (k.taking x taken).status = ⟨0xB0⟩ := by
  unfold taking
  rw [if_neg hmore]
  change (⟨if k.fdc.inReset then 0x00
    else if k.faults.portLimit = some taken.toArray.size then 0x30 else 0xB0⟩ : MainStatus) = _
  rw [hreset, hlimit]
  rfl

theorem core_endPortTransfer (hverdict : m.core.faults.verdict = none) (x : Extent) :
    (m.endPortTransfer x).core = m.core.answer (x.result (x.unit ||| 0x40) endOfCylinder 0) :=
  core_endTransfer hverdict x _ _ _

theorem giveByte_giving (hreset : k.fdc.inReset = false) (hlimit : k.faults.portLimit = none)
    (hverdict : k.faults.verdict = none) {b : UInt8} {left : List UInt8} {gone : Nat}
    (hm : m.core = k.giving x (b :: left) gone) :
    m.giveByte.1 = b ∧ m.giveByte.2.core = k.giving x left (gone + 1) := by
  have hstatus : m.fdc.status m.faults = 0xF0 := by
    have hbits := congrArg (fun k => k.status.bits) hm
    rw [status_giving hreset hlimit] at hbits
    exact hbits
  have hstage : m.fdc.stage = .reading (b :: left) gone x := congrArg (fun k => k.fdc.stage) hm
  have hready : ¬ m.fdc.status m.faults &&& 0xC0 ≠ 0xC0 := by
    rw [hstatus]
    decide
  unfold giveByte
  rw [if_neg hready, hstage]
  cases left with
  | nil =>
    refine ⟨rfl, ?_⟩
    have hnone : m.core.faults.verdict = none := by
      rw [hm]
      exact hverdict
    exact (core_endPortTransfer hnone x).trans (by rw [hm]; rfl)
  | cons b' left =>
    refine ⟨rfl, ?_⟩
    have hgo : ∀ k' : Core, k' = k.giving x (b :: b' :: left) gone →
        { k' with fdc := { k'.fdc with stage := .reading (b' :: left) (gone + 1) x } } =
          k.giving x (b' :: left) (gone + 1) := by
      rintro _ rfl
      rfl
    exact hgo m.core hm

theorem acceptByte_taking (hreset : k.fdc.inReset = false) (hlimit : k.faults.portLimit = none)
    (hverdict : k.faults.verdict = none) {taken : List UInt8} (hmore : taken.length ≠ x.byteLength)
    (hm : m.core = k.taking x taken) (b : UInt8) :
    (m.acceptByte b).core = k.taking x (taken ++ [b]) := by
  have hstatus : m.fdc.status m.faults = 0xB0 := by
    have hbits := congrArg (fun k => k.status.bits) hm
    rw [status_taking hreset hlimit hmore] at hbits
    exact hbits
  have hm' : m.core = { k with fdc := { k.fdc with stage := .writing taken.toArray x } } := by
    rw [hm, taking, if_neg hmore]
  have hstage : m.fdc.stage = .writing taken.toArray x := congrArg (fun k => k.fdc.stage) hm'
  have hready : ¬ m.fdc.status m.faults &&& 0x80 = 0 := by
    rw [hstatus]
    decide
  unfold acceptByte taking
  rw [if_neg hready, hstage]
  simp only [List.push_toArray, List.size_toArray]
  split
  · have hnone : m.core.faults.verdict = none := by
      rw [hm']
      exact hverdict
    refine (core_endPortTransfer ?_ x).trans ?_
    · exact hnone
    have hend : ∀ k' : Core, k' = { k with fdc := { k.fdc with stage := .writing taken.toArray x } } →
        { k' with fdc := { k'.fdc with disk := k'.fdc.disk.write x (taken ++ [b]) } }.answer
            (x.result (x.unit ||| 0x40) endOfCylinder 0) =
          { k with fdc := { k.fdc with disk := k.fdc.disk.write x (taken ++ [b]) } }.answer
            (x.result (x.unit ||| 0x40) endOfCylinder 0) := by
      rintro _ rfl
      rfl
    exact hend m.core hm'
  · have hgo : ∀ k' : Core, k' = { k with fdc := { k.fdc with stage := .writing taken.toArray x } } →
        { k' with fdc := { k'.fdc with stage := .writing (taken ++ [b]).toArray x } } =
          { k with fdc := { k.fdc with stage := .writing (taken ++ [b]).toArray x } } := by
      rintro _ rfl
      rfl
    exact hgo m.core hm'

end Core

theorem ensures_payloadReady (h : Core.At base k) (ready : MainStatus → Bool)
    (hdata : k.status.dataReady = true) (hready : ready k.status = true) (ms : Nat) :
    (Fifo.payloadReady base ready ms).Ensures surroundings (fun r k' => r = true ∧ k' = k) k := by
  refine Program.ensures_bind.mpr ((Core.ensures_awaitReadyWithin h 999).mono ?_)
  rintro _ k ⟨rfl, rfl⟩
  rw [if_pos hdata]
  apply (Core.ensures_awaitStatus h ready ms).mono
  rintro _ _ ⟨rfl, rfl⟩
  exact ⟨hready, rfl⟩

theorem ensures_takePayload (hopen : Core.Open base k) (hf : k.faults.Harmless) (ms : Nat)
    (bytes left taken : List UInt8) (gone : Nat) :
    (Fifo.takePayload base ms bytes.length taken).Ensures surroundings
      (fun r k' => r = bytes.reverse ++ taken ∧ k' = k.giving x left (gone + bytes.length))
      (k.giving x (bytes ++ left) gone) := by
  induction bytes generalizing taken gone with
  | nil => exact ⟨rfl, rfl⟩
  | cons b bytes ih =>
    have hat : Core.At base (k.giving x (b :: bytes ++ left) gone) :=
      hopen.toAt.same (Core.same_giving k x _ gone)
    have hstatus := Core.status_giving (x := x) hopen.outOfReset hf.portLimit b (bytes ++ left) gone
    have hready := ensures_payloadReady hat MainStatus.canReadPayload
      (by rw [List.cons_append, hstatus]; rfl) (by rw [List.cons_append, hstatus]; decide) ms
    refine Program.ensures_bind.mpr (hready.mono ?_)
    rintro _ _ ⟨rfl, rfl⟩
    refine Program.ensures_bind.mpr ((Core.ensures_giveByte hat).mono ?_)
    rintro _ _ ⟨m, hm, rfl, rfl⟩
    obtain ⟨hb, hrest⟩ := Core.giveByte_giving hopen.outOfReset hf.portLimit hf.verdict hm
    rw [hb, hrest]
    apply (ih (b :: taken) (gone + 1)).mono
    rintro _ _ ⟨rfl, rfl⟩
    refine ⟨by simp, ?_⟩
    rw [List.length_cons, Nat.add_assoc, Nat.add_comm 1]

/-- The bytes of so many sectors, one sector after another. -/
theorem ensures_readSectors (hopen : Core.Open base k) (hf : k.faults.Harmless) {size count : Nat}
    {bytes : List UInt8} (hlength : bytes.length = count * size) (gone : Nat) :
    (Operation.readSectors base size count).Ensures surroundings
      (fun r k' => r = bytes ∧ k' = k.giving x [] (gone + bytes.length))
      (k.giving x bytes gone) := by
  induction count generalizing bytes gone with
  | zero =>
    rw [Nat.zero_mul] at hlength
    obtain rfl := List.length_eq_zero_iff.mp hlength
    exact ⟨rfl, rfl⟩
  | succ count ih =>
    rw [Nat.succ_mul] at hlength
    have hat : Core.At base (k.giving x bytes gone) := hopen.toAt.same (Core.same_giving k x _ gone)
    have hsize : (bytes.take size).length = size := by
      rw [List.length_take]
      omega
    have hrest : (bytes.drop size).length = count * size := by
      rw [List.length_drop]
      omega
    refine Program.ensures_bind.mpr ((Core.ensures_awaitStatus hat _ _).mono ?_)
    rintro _ _ ⟨rfl, -⟩
    have htake := ensures_takePayload (x := x) hopen hf Operation.byteTimeout (bytes.take size)
      (bytes.drop size) [] gone
    rw [List.take_append_drop, hsize] at htake
    have hread : (Fifo.readPayload base Operation.byteTimeout size).Ensures surroundings
        (fun r k' => r = bytes.take size ∧ k' = k.giving x (bytes.drop size) (gone + size))
        (k.giving x bytes gone) := by
      refine Program.ensures_bind.mpr (htake.mono ?_)
      rintro _ _ ⟨rfl, rfl⟩
      exact ⟨by simp, rfl⟩
    refine Program.ensures_bind.mpr ((Core.ensures_uninterrupted hread).mono ?_)
    rintro _ _ ⟨rfl, rfl⟩
    rw [if_pos hsize]
    refine Program.ensures_bind.mpr ((ih hrest (gone + size)).mono ?_)
    rintro _ _ ⟨rfl, rfl⟩
    refine ⟨List.take_append_drop size bytes, ?_⟩
    have hgone : gone + size + (bytes.drop size).length = gone + bytes.length := by omega
    rw [hgone]

theorem ensures_givePayload (hopen : Core.Open base k) (hf : k.faults.Harmless) (ms : Nat)
    (bytes taken : List UInt8) (given : Nat)
    (hroom : taken.length + bytes.length ≤ x.byteLength) :
    (Fifo.givePayload base ms bytes given).Ensures surroundings
      (fun r k' => r = given + bytes.length ∧ k' = k.taking x (taken ++ bytes))
      (k.taking x taken) := by
  induction bytes generalizing taken given with
  | nil =>
    rw [List.append_nil]
    exact ⟨rfl, rfl⟩
  | cons b bytes ih =>
    rw [List.length_cons] at hroom
    have hat : Core.At base (k.taking x taken) := hopen.toAt.taking x taken
    have hmore : taken.length ≠ x.byteLength := by omega
    have hstatus := Core.status_taking hopen.outOfReset hf.portLimit hmore
    have hready := ensures_payloadReady hat MainStatus.canWritePayload
      (by rw [hstatus]; rfl) (by rw [hstatus]; decide) ms
    refine Program.ensures_bind.mpr (hready.mono ?_)
    rintro _ _ ⟨rfl, rfl⟩
    refine Program.ensures_bind.mpr ((Core.ensures_acceptByte hat b).mono ?_)
    rintro _ _ ⟨m, hm, rfl⟩
    rw [Core.acceptByte_taking hopen.outOfReset hf.portLimit hf.verdict hmore hm]
    apply (ih (taken ++ [b]) (given + 1) (by simp; omega)).mono
    rintro _ _ ⟨rfl, rfl⟩
    refine ⟨?_, by rw [List.append_assoc]; rfl⟩
    rw [List.length_cons, Nat.add_assoc, Nat.add_comm 1]

/-- As many sectors as there are bytes for. -/
theorem ensures_writeSectors (hopen : Core.Open base k) (hf : k.faults.Harmless) {size count : Nat}
    {bytes : List UInt8} (hlength : count * size ≤ bytes.length) (taken : List UInt8)
    (hroom : taken.length + count * size ≤ x.byteLength) :
    (Operation.writeSectors base size count bytes).Ensures surroundings
      (fun r k' => r = count * size ∧ k' = k.taking x (taken ++ bytes.take (count * size)))
      (k.taking x taken) := by
  induction count generalizing bytes taken with
  | zero =>
    rw [Nat.zero_mul, List.take_zero, List.append_nil]
    exact ⟨rfl, rfl⟩
  | succ count ih =>
    rw [Nat.succ_mul] at hlength hroom
    have hat : Core.At base (k.taking x taken) := hopen.toAt.taking x taken
    have hsize : (bytes.take size).length = size := by
      rw [List.length_take]
      omega
    refine Program.ensures_bind.mpr ((Core.ensures_awaitStatus hat _ _).mono ?_)
    rintro _ _ ⟨rfl, -⟩
    have hgive := ensures_givePayload (x := x) hopen hf Operation.byteTimeout (bytes.take size) taken 0
      (by omega)
    rw [hsize, Nat.zero_add] at hgive
    refine Program.ensures_bind.mpr ((Core.ensures_uninterrupted hgive).mono ?_)
    rintro sent _ ⟨hsent, rfl⟩
    rw [if_pos hsent]
    have hleft : count * size ≤ (bytes.drop size).length := by
      rw [List.length_drop]
      omega
    have hrest := ih hleft (taken ++ bytes.take size) (by rw [List.length_append, hsize]; omega)
    refine Program.ensures_bind.mpr (hrest.mono ?_)
    rintro _ _ ⟨rfl, rfl⟩
    refine ⟨by rw [hsent, Nat.succ_mul, Nat.add_comm], ?_⟩
    rw [Nat.succ_mul, Nat.add_comm, List.take_add, List.append_assoc]

end Diskette
