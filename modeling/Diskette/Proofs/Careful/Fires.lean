import Diskette.Proofs.Careful.Basic
import Mathlib.Data.List.Induction

/-!
Fires counted with care: what is counted and not yet acknowledged has to fit into 32 bits. It does for as long as a line
is acknowledged before it has fired that often.
-/
namespace Diskette

variable {m : Memory} {id : Nat}

namespace Memory

/-- What befalls the memory: the driver makes a call, or a handler counts a fire. -/
inductive Event
  | call (c : Memory.Call)
  | fire (id : Nat)

def happen (m : Memory) : Event → Memory
  | .call c => (m.step c).2
  | .fire id => (m.countFire id).2

namespace Event

/-- Fires of a line since its last acknowledgement, of which there were so many before. -/
def count (id n : Nat) : Event → Nat
  | .call (.acknowledge i) => if i = id then 0 else n
  | .call _ => n
  | .fire i => if i = id then n + 1 else n

/-- Fires of a line since its last acknowledgement. -/
def unacknowledged (id : Nat) (events : List Event) : Nat := events.foldl (count id) 0

/-- There are no more fires than events. -/
theorem unacknowledged_le_length (id : Nat) (events : List Event) : unacknowledged id events ≤ events.length := by
  have hfrom : ∀ n, events.foldl (count id) n ≤ n + events.length := by
    induction events with
    | nil => exact fun n => Nat.le_refl n
    | cons e events ih =>
      intro n
      have hcount : count id n e ≤ n + 1 := by
        unfold count
        split <;> first | split <;> omega | omega
      have hrest := ih (count id n e)
      simp only [List.foldl_cons, List.length_cons]
      omega
  simpa [unacknowledged] using hfrom 0

/-- No line fires 2³² times between two acknowledgements. -/
def Attended (events : List Event) : Prop := ∀ before after, events = before ++ after →
  ∀ id, unacknowledged id before < UInt32.size

end Event
end Memory

namespace Careful

def fire? (c : FireCounter) : Option (Bool × FireCounter) := do
  let pending := UInt32.ofNat (← plus? UInt32.size c.unacknowledged.toNat 1)
  return (FireCounter.stormMark ≤ pending && !c.degraded,
    { fired := c.fired + 1
      unacknowledged := pending
      degraded := c.degraded || FireCounter.stormMark ≤ pending })

def happen? (m : Memory) : Memory.Event → Option Memory
  | .call c => return (m.step c).2
  | .fire id => do
    let (_, counter) ← fire? (m.counter id)
    return { m with counters := m.counters.modify id fun _ => counter }

theorem fire?_eq {c : FireCounter} (h : c.unacknowledged.toNat + 1 < UInt32.size) : fire? c = some c.fire := by
  have hpending : UInt32.ofNat (c.unacknowledged.toNat + 1) = c.unacknowledged + 1 := by
    apply UInt32.toNat_inj.mp
    simp
  simp [fire?, plus?_eq h, FireCounter.fire]

theorem happen?_fire (h : (m.counter id).unacknowledged.toNat + 1 < UInt32.size) :
    happen? m (.fire id) = some (m.happen (.fire id)) := by
  have hmodify : m.counters.modify id (fun _ => (m.counter id).fire.2) = m.counters.modify id fun c => c.fire.2 := by
    apply Array.ext (by simp)
    intro i hi _
    simp only [Array.getElem_modify]
    split
    · subst i
      have hsize : id < m.counters.size := by simpa using hi
      simp [Memory.counter, Array.getD_eq_getD_getElem?, hsize]
    · rfl
  simp [happen?, fire?_eq h, Memory.happen, Memory.countFire, hmodify]

end Careful

namespace Memory

open Careful

variable {events : List Event}

/-- What is counted is no more than has fired. -/
theorem unacknowledged_happen {n : Nat} (e : Event) (h : (m.counter id).unacknowledged.toNat ≤ n) :
    ((m.happen e).counter id).unacknowledged.toNat ≤ e.count id n := by
  cases e with
  | fire i =>
    simp only [happen, countFire, counter_modify, Event.count]
    by_cases hid : i = id
    · have hnext : ((m.counter id).unacknowledged + 1).toNat ≤ n + 1 := by
        rw [UInt32.toNat_add]
        exact Nat.le_trans (Nat.mod_le ..) (Nat.succ_le_succ h)
      by_cases hsize : id < m.counters.size
      · simpa [hid, hsize, FireCounter.fire] using hnext
      · simpa [hid, hsize] using Nat.le_succ_of_le h
    · simpa [hid] using h
  | call c =>
    cases c with
    | acknowledge i =>
      simp only [happen, step, acknowledge, counter_modify, Event.count]
      by_cases hid : i = id
      · by_cases hsize : id < m.counters.size
        · simp [hid, hsize, FireCounter.acknowledge]
        · have hmissing : m.counter id = {} := by simp [counter, Array.getD_eq_getD_getElem?, hsize]
          simp [hid, hsize, hmissing]
      · simpa [hid] using h
    | createLine irq =>
      rw [happen, counter_createLine]
      exact h
    | _ => exact h

theorem unacknowledged_happens (hm : ∀ id, (m.counter id).unacknowledged = 0) (events : List Event) (id : Nat) :
    ((events.foldl happen m).counter id).unacknowledged.toNat ≤ Event.unacknowledged id events := by
  induction events using List.reverseRecOn with
  | nil => simp [Event.unacknowledged, hm]
  | append_singleton events e ih =>
    simp only [Event.unacknowledged, List.foldl_append, List.foldl_cons, List.foldl_nil]
    exact unacknowledged_happen e ih

theorem Event.Attended.init {e : Event} (h : Attended (events ++ [e])) : Attended events :=
  fun before after hsplit => h before (after ++ [e]) (by simp [hsplit])

theorem happens_careful (hm : ∀ id, (m.counter id).unacknowledged = 0) (h : Event.Attended events) :
    events.foldlM happen? m = some (events.foldl happen m) := by
  induction events using List.reverseRecOn with
  | nil => rfl
  | append_singleton events e ih =>
    rw [List.foldlM_append, ih h.init]
    simp only [Option.bind_eq_bind, Option.bind_some, List.foldlM_cons, List.foldlM_nil, List.foldl_append,
      List.foldl_cons, List.foldl_nil]
    cases e with
    | call c => rfl
    | fire id =>
      have hbefore := unacknowledged_happens hm events id
      have hlast := h (events ++ [.fire id]) [] (by simp) id
      simp only [Event.unacknowledged, Event.count, List.foldl_append, List.foldl_cons, List.foldl_nil, if_true] at hlast
      rw [happen?_fire (by simp only [Event.unacknowledged] at hbefore; omega)]
      rfl

end Memory
end Diskette
