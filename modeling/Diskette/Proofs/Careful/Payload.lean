import Diskette.Proofs.Careful.Operations
import Diskette.Proofs.Failing
import Diskette.Proofs.Framing
import Diskette.Proofs.Payload.Progress

/-!
Data commands, with care. A channel is never asked to have moved a negative number of bytes; the bytes of a transfer lie
in the caller's buffer and in the bounce buffer, and each sector of one that is stepped by hand lies in the buffer
before it is begun.
-/
namespace Diskette

variable {α β : Type} {base : UInt16} {capacity size : Nat} {command : Command} {span : SectorSpan} {t : Transfer}

open Careful

/-- What a routine goes on to do need only agree on what it yields. -/
theorem Program.careful_bind_congr {p : Routine α} {φ : α → Prop} (h : Yields p φ) {f g : α → Careful β}
    (hfg : ∀ a, φ a → f a = g a) : p.careful >>= f = p.careful >>= g := by
  have hbind : ∀ t : History Platform, p.Ensures recorded (fun a _ => φ a) t →
      (p >>= fun a => (f a).run) = p >>= fun a => (g a).run := by
    clear h
    induction p with
    | done a => exact fun t ha => congrArg OptionT.run (hfg a ha)
    | call c next ih =>
      intro t h
      have hnext : (fun r => next r >>= fun a => (f a).run) = fun r => next r >>= fun a => (g a).run :=
        funext fun r => ih r _ (h.2 r _ rfl)
      exact congrArg (Program.call c) hnext
  apply OptionT.ext
  simpa [careful, OptionT.run_bind, Option.elimM] using hbind [] (h [])

namespace Careful

def moved (channel : UInt8) (requested : Nat) : Careful Nat := do
  let remaining ← (Platform.channel channel .remaining).careful
  let remaining := if ← (Platform.channel channel .terminalCount).careful then 0 else min remaining.toNat requested
  minus? requested remaining

/-- The payload goes to the front of the bounce buffer, from the front of the caller's. -/
def fillBounce (capacity : Nat) (t : Transfer) : Careful Unit :=
  match t.buffer with
  | .source source => do
    room? capacity 0 t.length
    (Platform.memory (.store (← slice? source 0 t.length))).careful
  | .destination _ => return ()

@[simp] theorem moved_careful (channel : UInt8) (requested : Nat) :
    (Channel.moved channel requested).careful = moved channel requested := by
  have hminus (remaining : UInt32) : minus? requested (min remaining.toNat requested) =
      some (requested - min remaining.toNat requested) := minus?_eq (Nat.min_le_right ..)
  simp only [Channel.moved, moved, Program.careful_bind, Program.careful_ite]
  refine bind_congr fun remaining => bind_congr fun ranOut => ?_
  cases ranOut <;> simp [minus?_eq (Nat.zero_le requested), hminus]

theorem fillBounce_careful (hlength : t.length ≤ t.buffer.bytes.length) (hroom : t.length ≤ capacity) :
    (Operation.fillBounce t).careful = fillBounce capacity t := by
  obtain ⟨length, buffer⟩ := t
  cases buffer with
  | destination bytes => rfl
  | source bytes =>
    have hslice : slice? bytes 0 length = some (bytes.take length) := slice?_eq (Nat.zero_le _) hlength
    have hroom : room? capacity 0 length = some () := room?_eq (by simpa using hroom)
    simp [Operation.fillBounce, fillBounce, hslice, hroom]

/-- Reads sectors into a buffer with room for so many bytes, for as long as another one is wanted. -/
def readSectors (base : UInt16) (size length room : Nat) : (sectors moved : Nat) → Careful (List UInt8)
  | 0, moved => do
    if (← plus? UInt64.size moved size) ≤ length then failure
    else return []
  | sectors + 1, moved => do
    if (← plus? UInt64.size moved size) ≤ length then
      let _ ← awaitStatus base MainStatus.dataReady Operation.sectorTimeout
      room? room moved size
      let bytes ← uninterrupted (readPayload base Operation.byteTimeout size)
      let moved ← plus? UInt64.size moved bytes.length
      if bytes.length = size then return bytes ++ (← readSectors base size length room sectors moved)
      else return bytes
    else return []

/-- Writes sectors out of a buffer, for as long as another one is wanted. -/
def writeSectors (base : UInt16) (size length : Nat) (source : List UInt8) : (sectors moved : Nat) → Careful Nat
  | 0, moved => do
    if (← plus? UInt64.size moved size) ≤ length then failure
    else return moved
  | sectors + 1, moved => do
    let stop ← plus? UInt64.size moved size
    if stop ≤ length then
      let _ ← awaitStatus base MainStatus.dataReady Operation.sectorTimeout
      let sent ← uninterrupted (writePayload base Operation.byteTimeout (← slice? source moved stop))
      let moved ← plus? UInt64.size moved sent
      if sent = size then writeSectors base size length source sectors moved
      else return moved
    else return moved

theorem yields_readPayload (ms count : Nat) : Yields (Fifo.readPayload base ms count) (·.length ≤ count) := by
  have htake : ∀ taken : List UInt8, Yields (Fifo.takePayload base ms count taken) (·.length ≤ taken.length + count) := by
    induction count with
    | zero => exact fun taken => yields_done (Nat.le_refl _)
    | succ count ih =>
      intro taken
      refine yields_bind fun ready => yields_ite (yields_bind fun b t => ?_) (yields_done (Nat.le_add_right ..))
      refine (ih (b :: taken) t).mono fun bytes _ hbytes => ?_
      simp only [List.length_cons] at hbytes
      omega
  intro t
  refine Program.ensures_bind.mpr ((htake [] t).mono fun bytes _ hbytes => ?_)
  simpa using hbytes

theorem yields_writePayload (ms : Nat) (bytes : List UInt8) :
    Yields (Fifo.writePayload base ms bytes) (· ≤ bytes.length) := by
  have hgive : ∀ given, Yields (Fifo.givePayload base ms bytes given) (· ≤ given + bytes.length) := by
    induction bytes with
    | nil => exact fun given => yields_done (Nat.le_refl _)
    | cons b rest ih =>
      intro given
      refine yields_bind fun ready => yields_ite (yields_bind fun _ t => ?_) (yields_done (Nat.le_add_right ..))
      refine (ih (given + 1) t).mono fun n _ hn => ?_
      simp only [List.length_cons]
      omega
  simpa [Fifo.writePayload] using hgive 0

theorem readSectors_eq {length room sectors moved : Nat} (hpos : 0 < size) (hroom : length ≤ room)
    (hlarge : length + size < UInt64.size) (h : moved + sectors * size = length) :
    readSectors base size length room sectors moved = (Operation.readSectors base size sectors).careful := by
  induction sectors generalizing moved with
  | zero =>
    have hplus : plus? UInt64.size moved size = some (moved + size) := plus?_eq (by omega)
    have hover : ¬moved + size ≤ length := by omega
    simp [readSectors, Operation.readSectors, hplus, hover]
  | succ sectors ih =>
    rw [Nat.succ_mul] at h
    have hplus : plus? UInt64.size moved size = some (moved + size) := plus?_eq (by omega)
    have hstop : moved + size ≤ length := by omega
    have hinside : room? room moved size = some () := room?_eq (by omega)
    have hread : readPayload base Operation.byteTimeout size = (Fifo.readPayload base Operation.byteTimeout size).careful :=
      readPayload_eq (by omega)
    simp only [readSectors, Operation.readSectors, hplus, hinside, hread, liftM_some, pure_bind, if_pos hstop,
      Program.careful_bind, awaitStatus_careful, ← uninterrupted_careful]
    refine bind_congr fun _ => ?_
    refine Program.careful_bind_congr (yields_uninterrupted (yields_readPayload _ size)) fun bytes hbytes => ?_
    have hcount : plus? UInt64.size moved bytes.length = some (moved + bytes.length) := plus?_eq (by omega)
    by_cases hwhole : bytes.length = size
    · have hnext : moved + size + sectors * size = length := by omega
      have hrest := ih hnext
      simp [hwhole, hplus, hrest]
    · simp [hwhole, hcount]

theorem writeSectors_eq {length sectors moved : Nat} {source : List UInt8} (hpos : 0 < size)
    (hroom : length ≤ source.length) (hlarge : length + size < UInt64.size) (h : moved + sectors * size = length) :
    writeSectors base size length source sectors moved =
      (moved + ·) <$> (Operation.writeSectors base size sectors (source.drop moved)).careful := by
  induction sectors generalizing moved with
  | zero =>
    have hplus : plus? UInt64.size moved size = some (moved + size) := plus?_eq (by omega)
    have hover : ¬moved + size ≤ length := by omega
    simp [writeSectors, Operation.writeSectors, hplus, hover]
  | succ sectors ih =>
    rw [Nat.succ_mul] at h
    have hplus : plus? UInt64.size moved size = some (moved + size) := plus?_eq (by omega)
    have hstop : moved + size ≤ length := by omega
    have hsector : slice? source moved (moved + size) = some ((source.drop moved).take size) := by
      rw [slice?_eq (by omega) (by omega), List.drop_take, Nat.add_sub_cancel_left]
    have hlength : ((source.drop moved).take size).length = size := by
      simp only [List.length_take, List.length_drop]
      omega
    have hwrite : writePayload base Operation.byteTimeout ((source.drop moved).take size) =
        (Fifo.writePayload base Operation.byteTimeout ((source.drop moved).take size)).careful :=
      writePayload_eq (by omega)
    have hyields : Yields (Fifo.writePayload base Operation.byteTimeout ((source.drop moved).take size)) (· ≤ size) :=
      fun h => (yields_writePayload _ _ h).mono fun sent _ hsent => hlength ▸ hsent
    simp only [writeSectors, Operation.writeSectors, hplus, hsector, hwrite, liftM_some, pure_bind, if_pos hstop,
      Program.careful_bind, awaitStatus_careful, ← uninterrupted_careful, map_bind]
    refine bind_congr fun _ => ?_
    refine Program.careful_bind_congr (yields_uninterrupted hyields) fun sent hsent => ?_
    have hcount : plus? UInt64.size moved sent = some (moved + sent) := plus?_eq (by omega)
    by_cases hwhole : sent = size
    · have hnext : moved + size + sectors * size = length := by omega
      have hrest := ih hnext
      simp [hwhole, hplus, hrest, Nat.add_assoc]
    · simp [hwhole, hcount]

end Careful
end Diskette
