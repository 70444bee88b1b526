import Diskette.Proofs.Simulated.Steps

/-!
A payload through the DMA channel of a simulated machine. It rests in the bounce buffer on its way, and
the channel is at its terminal count when all of it has moved.
-/
namespace Diskette

open Simulated
open Diskette.Core (surroundings)

variable {c c' : Controller} {k k' : Core} {m : Simulated}

theorem toList_foldl_set (bytes : List UInt8) (i : Nat) (buffer : Array UInt8)
    (h : i + bytes.length ≤ buffer.size) :
    ((bytes.foldl (fun (i, buffer) b => (i + 1, buffer.setIfInBounds i b)) (i, buffer)).2).toList =
      buffer.toList.take i ++ bytes ++ buffer.toList.drop (i + bytes.length) := by
  induction bytes generalizing i buffer with
  | nil => simp
  | cons b bytes ih =>
    simp only [List.length_cons] at h
    have hi : i < buffer.toList.length := by
      rw [Array.length_toList]
      omega
    rw [List.foldl_cons, ih (i + 1) (buffer.setIfInBounds i b) (by
      rw [Array.size_setIfInBounds]
      omega)]
    have htake : (buffer.toList.set i b).take (i + 1) = buffer.toList.take i ++ [b] := by
      rw [List.take_add_one, List.take_set_of_le (Nat.le_refl i), List.getElem?_set_self hi]
      rfl
    have hdrop : (buffer.toList.set i b).drop (i + (bytes.length + 1)) =
        buffer.toList.drop (i + (bytes.length + 1)) := List.drop_set_of_lt (by omega)
    simp [htake, hdrop, Nat.add_assoc, Nat.add_comm 1 bytes.length]

theorem Memory.toList_write (memory : Memory) {bytes : List UInt8}
    (h : bytes.length ≤ memory.bounce.size) :
    (memory.write 0 bytes).bounce.toList = bytes ++ memory.bounce.toList.drop bytes.length := by
  have hset := toList_foldl_set bytes 0 memory.bounce (by omega)
  simpa [Memory.write] using hset

theorem Memory.read_eq_take (memory : Memory) (count : Nat) :
    memory.read 0 count = memory.bounce.toList.take count := by
  simp [Memory.read]

theorem toList_ofFn_getD {buffer : Array UInt8} {count : Nat} (h : count ≤ buffer.size) :
    (Vector.ofFn fun i : Fin count => buffer.getD i.val 0).toList = buffer.toList.take count := by
  apply List.ext_getElem (by simp [Nat.min_eq_left h])
  intro i hi hi'
  simp only [Vector.length_toList] at hi
  have hsize : i < buffer.size := Nat.lt_of_lt_of_le hi h
  simp [Array.getD_eq_getD_getElem?, hsize]

theorem Core.ensures_store (bytes : List UInt8) :
    (Platform.memory (.store bytes)).Ensures surroundings (fun _ k' => k' = { k with
      bounce := (Memory.write { bounce := k.bounce } 0 bytes).bounce }) k := by
  apply Core.ensures_perform
  rintro m rfl
  rfl

theorem Core.ensures_fetch (count : Nat) :
    (Platform.memory (.fetch count)).Ensures surroundings
      (fun r k' => r = Vector.ofFn (fun i => k.bounce.getD i.val 0) ∧ k' = k) k := by
  apply Core.ensures_perform
  rintro m rfl
  exact ⟨rfl, rfl⟩

theorem Core.ensures_bounceAddress : (Platform.memory .bounceAddress).Ensures surroundings
    (fun r k' => r = k.bounceAddress ∧ k' = k) k := by
  apply Core.ensures_perform
  rintro m rfl
  exact ⟨rfl, rfl⟩

theorem Core.ensures_bounceSize : (Platform.memory .bounceSize).Ensures surroundings
    (fun r k' => r = k.bounce.size ∧ k' = k) k := by
  apply Core.ensures_perform
  rintro m rfl
  exact ⟨rfl, rfl⟩

theorem Core.ensures_channel (c : Channel.Call) :
    (Platform.channel fdcChannel c).Ensures surroundings (fun r k' =>
      r = (k.channel.step k.faults.reloadCount c).1 ∧
      k' = { k with channel := (k.channel.step k.faults.reloadCount c).2 }) k := by
  apply Core.ensures_perform
  rintro m rfl
  exact ⟨rfl, rfl⟩

/-- A channel that is set up for one transfer. -/
def loadedChannel (direction : Direction) (address : UInt32) (length : Nat) : ChannelState where
  masked := false
  mode := some (.oneShot direction)
  count := UInt32.ofNat length
  address := address
  remaining := UInt32.ofNat length
  terminal := false

theorem ensures_setUp (direction : Direction) (address : UInt32) (length : Nat) :
    (Channel.setUp fdcChannel direction address length).Ensures surroundings
      (fun _ k' => k' = { k with channel := loadedChannel direction address length }) k := by
  unfold Channel.setUp
  refine Program.ensures_bind.mpr ((Core.ensures_channel .mask).mono ?_)
  rintro _ _ ⟨-, rfl⟩
  refine Program.ensures_bind.mpr ((Core.ensures_channel (.setMode _)).mono ?_)
  rintro _ _ ⟨-, rfl⟩
  refine Program.ensures_bind.mpr ((Core.ensures_channel (.loadCount _)).mono ?_)
  rintro _ _ ⟨-, rfl⟩
  refine Program.ensures_bind.mpr ((Core.ensures_channel (.loadAddress _)).mono ?_)
  rintro _ _ ⟨-, rfl⟩
  refine Program.ensures_bind.mpr ((Core.ensures_channel .unmask).mono ?_)
  rintro _ _ ⟨-, rfl⟩
  refine Program.ensures_bind.mpr ((Core.ensures_channel .terminalCount).mono ?_)
  rintro _ _ ⟨-, rfl⟩
  rfl

/-- At its terminal count a channel has moved what was asked for. -/
theorem ensures_moved (h : k.channel.terminal = true) (requested : Nat) :
    (Channel.moved fdcChannel requested).Ensures surroundings (fun r k' => r = requested ∧
      k' = { k with channel := { k.channel with terminal := false } }) k := by
  unfold Channel.moved
  refine Program.ensures_bind.mpr ((Core.ensures_channel .remaining).mono ?_)
  rintro remaining _ ⟨-, rfl⟩
  refine Program.ensures_bind.mpr ((Core.ensures_channel .terminalCount).mono ?_)
  rintro terminal _ ⟨rfl, rfl⟩
  rw [Program.ensures_ite, if_pos (by exact h)]
  exact ⟨rfl, rfl⟩

/-- The bytes have moved between the bounce buffer and the disk, and the channel has run out. -/
def Core.swapped (k : Core) (write : Bool) (x : Extent) : Core :=
  if write then
    { k with
      fdc := { k.fdc with disk := k.fdc.disk.write x (k.bounce.toList.take x.byteLength) }
      channel := { k.channel with remaining := 0, terminal := true } }
  else
    { k with
      bounce := (Memory.write { bounce := k.bounce } 0 ((k.fdc.disk.read x).take x.byteLength)).bounce
      channel := { k.channel with remaining := 0, terminal := true } }

/-- The end of a transfer with the status bytes that it has come to itself. -/
theorem core_endTransfer (hverdict : m.core.faults.verdict = none) (x : Extent)
    (st0 st1 st2 : UInt8) :
    (m.endTransfer x st0 st1 st2).core = m.core.answer (x.result st0 st1 st2) := by
  obtain ⟨fdc, channels, interrupts, ⟨limit, withheld, share, port, verdict, silent, reload⟩⟩ := m
  obtain rfl : verdict = none := hverdict
  rfl

theorem core_moveBytes {write : Bool} {x : Extent} {address : UInt32} {count : Nat}
    (haddress : address = m.core.bounceAddress) :
    (m.moveBytes write x address count).core =
      if write then
        { m.core with fdc := { m.core.fdc with
            disk := m.core.fdc.disk.write x (m.core.bounce.toList.take count) } }
      else { m.core with
        bounce := (Memory.write { bounce := m.core.bounce } 0
          ((m.core.fdc.disk.read x).take count)).bounce } := by
  subst haddress
  dsimp only [moveBytes, Simulated.core]
  rw [UInt32.sub_self]
  cases write with
  | false => rfl
  | true =>
    simp only [UInt32.toNat_zero, Memory.read_eq_take, ↓reduceIte]

theorem core_setChannel (ch : ChannelState) :
    (m.setChannel fdcChannel ch).core = { m.core with channel := ch } := rfl

theorem core_channelTransfer {write : Bool} {x : Extent} (hgate : m.core.fdc.gateOpen = true)
    (hready : m.core.channel.readyFor (if write then .fromMemory else .toMemory) = true)
    (hf : m.core.faults.Harmless) (hcount : m.core.channel.count = UInt32.ofNat x.byteLength)
    (hlength : x.byteLength < UInt32.size) (haddress : m.core.channel.address = m.core.bounceAddress) :
    (m.channelTransfer write x).core = (m.core.swapped write x).answer (x.result x.unit 0 0) := by
  have hshare : m.channelShare x (m.channels fdcChannel) = x.byteLength := by
    have hlimit : m.faults.channelLimit = none := hf.channelLimit
    have hcount' : (m.channels fdcChannel).count.toNat = x.byteLength := by
      rw [show (m.channels fdcChannel).count = UInt32.ofNat x.byteLength from hcount]
      exact UInt32.toNat_ofNat_of_lt' hlength
    simp [channelShare, hlimit, hcount']
  have haddress' : (m.channels fdcChannel).address = m.core.bounceAddress := haddress
  have hready' : (m.fdc.gateOpen &&
      (m.channels fdcChannel).readyFor (if write then .fromMemory else .toMemory)) = true := by
    rw [show m.fdc.gateOpen = true from hgate]
    exact hready
  have hnone : (m.channels fdcChannel).count - UInt32.ofNat x.byteLength = 0 := by
    rw [show (m.channels fdcChannel).count = UInt32.ofNat x.byteLength from hcount, UInt32.sub_self]
  dsimp only [channelTransfer]
  rw [if_pos hready', Core.core_signal, core_endTransfer, hshare, hnone,
    core_setChannel, core_moveBytes haddress']
  · cases write <;> rfl
  · rw [core_setChannel, core_moveBytes haddress']
    cases write <;> exact hf.verdict

end Diskette
