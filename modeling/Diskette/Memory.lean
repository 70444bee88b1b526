import Diskette.Interrupt.Counter
import Diskette.Program

/-!
Memory that others see too: the counters of the interrupt lines, which handlers count in, and the
bounce buffer, which a DMA channel moves bytes through.
-/
namespace Diskette

inductive Memory.Call
  /-- Counters for a new line. -/
  | createLine (irq : UInt8)
  | fired (id : Nat)
  | degraded (id : Nat)
  | acknowledge (id : Nat)
  | bounceAddress
  | bounceSize
  /-- The first bytes of the bounce buffer. -/
  | fetch (count : Nat)
  /-- Puts bytes at the front of the bounce buffer. -/
  | store (bytes : List UInt8)
  deriving DecidableEq, Repr

abbrev Memory.Reply : Memory.Call → Type
  | .createLine _ => Line
  | .fired _ => UInt32
  | .degraded _ => Bool
  | .acknowledge _ => Unit
  | .bounceAddress => UInt32
  | .bounceSize => Nat
  | .fetch count => Vector UInt8 count
  | .store _ => Unit

structure Memory where
  counters : Array FireCounter := #[]
  bounceAddress : UInt32 := 0x20000
  bounce : Array UInt8 := #[]
  deriving Inhabited

namespace Memory

def counter (m : Memory) (id : Nat) : FireCounter := m.counters.getD id {}

def acknowledge (m : Memory) (id : Nat) : Memory :=
  { m with counters := m.counters.modify id FireCounter.acknowledge }

/-- Counts a fire; see `FireCounter.fire`. -/
def countFire (m : Memory) (id : Nat) : Bool × Memory :=
  ((m.counter id).fire.1, { m with counters := m.counters.modify id fun c => c.fire.2 })

theorem counter_modify (m : Memory) (i j : Nat) (f : FireCounter → FireCounter) :
    counter { m with counters := m.counters.modify i f } j =
      if i = j ∧ j < m.counters.size then f (m.counter j) else m.counter j := by
  simp only [counter, Array.getD_eq_getD_getElem?, Array.getElem?_modify]
  by_cases hij : i = j
  · by_cases hsize : j < m.counters.size
    · simp [hij, hsize]
    · simp [hij, hsize]
  · simp [hij]

/-- Replaces the bytes of the bounce buffer from an offset on; what does not fit is dropped. -/
def write (m : Memory) (offset : Nat) (bytes : List UInt8) : Memory :=
  { m with bounce := (bytes.foldl
      (fun (i, buffer) b => (i + 1, buffer.setIfInBounds i b)) (offset, m.bounce)).2 }

theorem size_write (m : Memory) (offset : Nat) (bytes : List UInt8) :
    (m.write offset bytes).bounce.size = m.bounce.size := by
  unfold write
  generalize m.bounce = buffer
  induction bytes generalizing offset buffer with
  | nil => rfl
  | cons b bytes ih => exact (ih (offset + 1) (buffer.setIfInBounds offset b)).trans (Array.size_setIfInBounds ..)

/-- Bytes behind those that are written stay as they are. -/
theorem drop_write (m : Memory) {offset n : Nat} {bytes : List UInt8} (h : offset + bytes.length ≤ n) :
    (m.write offset bytes).bounce.toList.drop n = m.bounce.toList.drop n := by
  unfold write
  generalize m.bounce = buffer
  induction bytes generalizing offset buffer with
  | nil => rfl
  | cons b bytes ih =>
    simp only [List.length_cons] at h
    have hset : (buffer.setIfInBounds offset b).toList.drop n = buffer.toList.drop n := by
      rw [Array.toList_setIfInBounds, List.drop_set_of_lt (by omega)]
    have hrest : (offset + 1) + bytes.length ≤ n := by omega
    exact (ih hrest (buffer.setIfInBounds offset b)).trans hset

def read (m : Memory) (offset count : Nat) : List UInt8 :=
  (m.bounce.extract offset (offset + count)).toList

def step (m : Memory) : (c : Memory.Call) → Memory.Reply c × Memory
  | .createLine irq => (⟨irq, m.counters.size⟩, { m with counters := m.counters.push {} })
  | .fired id => ((m.counter id).fired, m)
  | .degraded id => ((m.counter id).degraded, m)
  | .acknowledge id => ((), m.acknowledge id)
  | .bounceAddress => (m.bounceAddress, m)
  | .bounceSize => (m.bounce.size, m)
  | .fetch _ => (Vector.ofFn fun i => m.bounce.getD i.val 0, m)
  | .store bytes => ((), m.write 0 bytes)

/-- The counters that are there already stay as they are. -/
theorem counter_createLine (m : Memory) (irq : UInt8) (id : Nat) :
    (m.step (.createLine irq)).2.counter id = m.counter id := by
  simp only [step, counter, Array.getD_eq_getD_getElem?, Array.getElem?_push]
  by_cases hid : id = m.counters.size
  · simp [hid]
  · simp [hid]

/-- A call takes back acknowledged fires, and leaves it at that. -/
theorem counter_step (m : Memory) (c : Memory.Call) (id : Nat) :
    ∃ n, (m.step c).2.counter id = { m.counter id with unacknowledged := n } := by
  cases c with
  | createLine irq => exact ⟨_, m.counter_createLine irq id⟩
  | acknowledge i =>
    simp only [step, acknowledge, counter_modify]
    split
    · exact ⟨0, rfl⟩
    · exact ⟨_, rfl⟩
  | _ => exact ⟨_, rfl⟩

/-- Only a fire degrades a line. -/
theorem degraded_step (m : Memory) (c : Memory.Call) (id : Nat) :
    ((m.step c).2.counter id).degraded = (m.counter id).degraded := by
  obtain ⟨n, hn⟩ := m.counter_step c id
  rw [hn]

theorem fired_step (m : Memory) (c : Memory.Call) (id : Nat) :
    ((m.step c).2.counter id).fired = (m.counter id).fired := by
  obtain ⟨n, hn⟩ := m.counter_step c id
  rw [hn]

end Memory

end Diskette
