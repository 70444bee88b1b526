import Diskette.Proofs.Surroundings
import Diskette.Proofs.Passage

/-!
Platforms on which interrupts come whenever one of their calls is made, also between two looks at the counters of a
line, and between two requests. A handler that the platform has been given may run at any such time, and any number
of times.
-/
namespace Diskette

/-- The counters of the lines, and those of them that a handler may count in. -/
structure Exposure where
  memory : Memory
  handed : Nat → Prop

namespace Exposure

def degraded (x : Exposure) (id : Nat) : Bool := (x.memory.counter id).degraded

/-- Whether an interrupt storm has degraded a line, if there is one. -/
def stormy (x : Exposure) (line : Option Line) : Bool := line.any fun l => x.degraded l.id

@[simp] theorem stormy_some (x : Exposure) (l : Line) : x.stormy (some l) = x.degraded l.id := rfl

/-- Handlers have run, and nothing else has changed but the bounce buffer. -/
structure Stirred (x y : Exposure) : Prop where
  fires : ∃ ids : List Nat, (∀ id ∈ ids, x.handed id) ∧ y.memory.counters =
    ids.foldl (fun counters id => counters.modify id fun counter => counter.fire.2) x.memory.counters
  handed : ∀ id, y.handed id → x.handed id

/-- What a call does by itself, and what the platform is given with it. -/
def called (x : Exposure) : Platform.Call → Exposure
  | .memory c => { x with memory := (x.memory.step c).2 }
  | .bind _ (.counting line) | .restore _ (some (.counting line)) =>
    { x with handed := fun id => id = line.id ∨ x.handed id }
  | _ => x

/-- Only the memory has to answer as it should. -/
def Answers (x : Exposure) : (c : Platform.Call) → Platform.Reply c → Prop
  | .memory c, r => r = (x.memory.step c).1
  | _, _ => True

/-- A call is answered, and then interrupts come. -/
def follows (x : Exposure) (c : Platform.Call) (r : Platform.Reply c) (y : Exposure) : Prop :=
  x.Answers c r ∧ Stirred (x.called c) y

/-- Exposed to interrupts, with some calls permitted. -/
abbrev surroundings (φ : Platform.Call → Prop) : Surroundings Platform Exposure :=
  ⟨fun _ c => φ c, follows⟩

variable {x y : Exposure} {id : Nat} {line : Option Line} {c : Platform.Call} {r : Platform.Reply c}

/-- What any number of fires leaves of a counter. -/
theorem degraded_fires (ids : List Nat) (m m' : Memory) (h : m'.counters =
    ids.foldl (fun counters id => counters.modify id fun counter => counter.fire.2) m.counters) :
    ((m.counter id).degraded → (m'.counter id).degraded) ∧
      ((m'.counter id).degraded → (m.counter id).degraded ∨ id ∈ ids) := by
  induction ids generalizing m with
  | nil =>
    have hcounter : m'.counter id = m.counter id := by
      unfold Memory.counter
      rw [h, List.foldl_nil]
    rw [hcounter]
    exact ⟨fun hd => hd, .inl⟩
  | cons i ids ih =>
    obtain ⟨hstays, hrises⟩ := ih { m with counters := m.counters.modify i fun c => c.fire.2 } h
    rw [Memory.counter_modify] at hstays hrises
    by_cases hi : i = id ∧ id < m.counters.size
    · rw [if_pos hi] at hstays
      refine ⟨fun hd => hstays ?_, fun _ => .inr (by simp [hi.1])⟩
      simp [FireCounter.fire, hd]
    · rw [if_neg hi] at hstays hrises
      refine ⟨hstays, fun hd => ?_⟩
      rcases hrises hd with hd | hmem
      · exact .inl hd
      · exact .inr (List.mem_cons_of_mem i hmem)

theorem Stirred.stays (h : Stirred x y) (hx : x.degraded id) : y.degraded id := by
  obtain ⟨ids, -, hcounters⟩ := h.fires
  exact (degraded_fires ids x.memory y.memory hcounters).1 hx

/-- A line is degraded only by its handler. -/
theorem Stirred.rises (h : Stirred x y) (hy : y.degraded id) : x.degraded id ∨ x.handed id := by
  obtain ⟨ids, hids, hcounters⟩ := h.fires
  rcases (degraded_fires ids x.memory y.memory hcounters).2 hy with hx | hmem
  · exact .inl hx
  · exact .inr (hids id hmem)

theorem Stirred.refl (x : Exposure) : Stirred x x := ⟨⟨[], by simp, rfl⟩, fun _ h => h⟩

@[simp] theorem degraded_called (x : Exposure) (c : Platform.Call) : (x.called c).degraded id = x.degraded id := by
  unfold called
  split
  · exact x.memory.degraded_step _ id
  all_goals rfl

/-- Once it is set, the flag is set for good. -/
theorem follows_stays (h : follows x c r y) (hx : x.degraded id) : y.degraded id :=
  h.2.stays ((degraded_called x c).trans hx)

theorem follows_rises (h : follows x c r y) (hy : y.degraded id) : x.degraded id ∨ (x.called c).handed id := by
  rcases h.2.rises hy with hx | hhanded
  · exact .inl ((degraded_called x c).symm.trans hx)
  · exact .inr hhanded

theorem follows_handed (h : follows x c r y) (hy : y.handed id) : (x.called c).handed id := h.2.handed id hy

theorem Stirred.stormy (h : Stirred x y) (hx : x.stormy line) : y.stormy line := by
  cases line with
  | none => exact hx
  | some l => exact h.stays hx

theorem stormy_follows (h : follows x c r y) (hx : x.stormy line) : y.stormy line := by
  cases line with
  | none => exact hx
  | some l => exact follows_stays h hx

theorem ensures_memory {φ : Platform.Call → Prop} {c : Memory.Call} {Q : Memory.Reply c → Exposure → Prop}
    (hφ : φ (.memory c)) (hQ : ∀ y, Stirred { x with memory := (x.memory.step c).2 } y → Q (x.memory.step c).1 y) :
    (Platform.memory c).Ensures (surroundings φ) Q x := by
  refine ⟨hφ, ?_⟩
  rintro r y ⟨hanswer, hstirred⟩
  obtain rfl : r = (x.memory.step c).1 := hanswer
  exact hQ y hstirred

/-- A look at the flag tells how it was, and not how it is by now. -/
theorem ensures_degraded {φ : Platform.Call → Prop} (hφ : ∀ c, φ (.memory c)) (l : Line) :
    l.degraded.Ensures (surroundings φ) (fun r y => r = x.degraded l.id ∧ Stirred x y) x :=
  ensures_memory (hφ _) fun _ hstirred => ⟨rfl, hstirred⟩

end Exposure
end Diskette
