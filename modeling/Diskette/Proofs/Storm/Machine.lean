import Diskette.Proofs.Simulated.Interrupts
import Diskette.Proofs.Storm.Exposure

/-! The simulated machine is exposed to interrupts, and to a storm on a line of it. -/
namespace Diskette

/-- A unit as a storm sees it. -/
def InterruptUnit.exposure (u : InterruptUnit) : Exposure :=
  ⟨u.memory, fun id => ∃ irq line, u.vectors irq = some (.counting line) ∧ line.id = id⟩

namespace Exposure

variable {x y z : Exposure} {u v : InterruptUnit}

theorem Stirred.trans (h : Stirred x y) (h' : Stirred y z) : Stirred x z := by
  obtain ⟨ids, hids, hcounters⟩ := h.fires
  obtain ⟨ids', hids', hcounters'⟩ := h'.fires
  refine ⟨⟨ids ++ ids', ?_, by rw [List.foldl_append, ← hcounters, hcounters']⟩,
    fun id hid => h.handed id (h'.handed id hid)⟩
  intro id hid
  rcases List.mem_append.mp hid with hid | hid
  · exact hids id hid
  · exact h.handed id (hids' id hid)

/-- What is not stirred but for the bounce buffer. -/
theorem Stirred.of_eq (hcounters : y.memory.counters = x.memory.counters)
    (hhanded : ∀ id, y.handed id → x.handed id) : Stirred x y :=
  ⟨⟨[], by simp, hcounters⟩, hhanded⟩

theorem stirred_deliverLine (u : InterruptUnit) (irq : UInt8) :
    Stirred u.exposure (u.deliverLine irq).exposure := by
  unfold InterruptUnit.deliverLine
  split
  · cases hslot : u.vectors irq with
    | none => exact .refl _
    | some handler =>
      cases handler with
      | acknowledging i => exact .refl _
      | counting line =>
        refine ⟨⟨[line.id], ?_, ?_⟩, ?_⟩
        · simp only [List.mem_singleton, forall_eq]
          exact ⟨irq, line, hslot, rfl⟩
        · simp only [Handler.dispatch, Handler.serve, Program.run_bind]
          split <;> rfl
        · simp only [Handler.dispatch, Handler.serve, Program.run_bind]
          split <;> exact fun _ => id
  · exact .refl _

theorem stirred_of_stirs (h : u.Stirs v) : Stirred u.exposure v.exposure :=
  h.invariant (K := fun v => Stirred u.exposure v.exposure) (fun _ _ hv => hv)
    (fun v irq hv => hv.trans (stirred_deliverLine v irq))
    (fun _ _ hcounters _ hv => hv.trans (.of_eq hcounters fun _ => id)) (.refl _)

/-- To put a handler in a slot is to hand it over. -/
theorem handed_setVector {irq : UInt8} {slot : Option Handler} {id : Nat}
    (h : (u.setVector irq slot).exposure.handed id) :
    (∃ line, slot = some (.counting line) ∧ id = line.id) ∨ u.exposure.handed id := by
  obtain ⟨i, line, hslot, hid⟩ := h
  by_cases hi : i = irq
  · exact .inl ⟨line, by simpa [InterruptUnit.setVector, hi] using hslot, hid.symm⟩
  · exact .inr ⟨i, line, by simpa [InterruptUnit.setVector, hi] using hslot, hid⟩

theorem answers_simulated (call : Platform.Call) (m : Simulated) :
    m.interrupts.exposure.Answers call (Simulated.machine.step call m).1 := by
  cases call with
  | memory c => exact rfl
  | _ => trivial

theorem stirred_called (call : Platform.Call) (m : Simulated) :
    Stirred (m.interrupts.exposure.called call) (Simulated.machine.step call m).2.interrupts.exposure := by
  cases call with
  | input port => exact stirred_of_stirs (Simulated.reacts_input m port).interrupts
  | output port value => exact stirred_of_stirs (Simulated.reacts_output m port value).interrupts
  | bind irq handler =>
    refine .of_eq (by cases handler <;> rfl) fun id hid => ?_
    rcases handed_setVector hid with ⟨line, ⟨⟩, rfl⟩ | hbefore
    · exact .inl rfl
    · cases handler with
      | acknowledging => exact hbefore
      | counting => exact .inr hbefore
  | restore irq prior =>
    refine .of_eq (by rcases prior with _ | ⟨_ | _⟩ <;> rfl) fun id hid => ?_
    rcases handed_setVector hid with ⟨line, rfl, rfl⟩ | hbefore
    · exact .inl rfl
    · rcases prior with _ | ⟨_ | _⟩
      · exact hbefore
      · exact hbefore
      · exact .inr hbefore
  | unmaskLine irq => exact stirred_of_stirs (u := m.interrupts.unmask irq) (.deliver .refl)
  | resume wasEnabled =>
    cases wasEnabled with
    | false => exact .refl _
    | true => exact stirred_of_stirs (u := { m.interrupts with enabled := true }) (.deliver .refl)
  | _ => exact .refl _

theorem keepsTo_exposed {φ : Platform.Call → Prop} :
    Simulated.machine.KeepsTo (surroundings φ) fun m => m.interrupts.exposure :=
  fun call m => ⟨answers_simulated call m, stirred_called call m⟩

end Exposure

/-- What so many fires leave of a counter, up to the one that brings it to the mark. -/
def FireCounter.after (count : Nat) (counter : FireCounter) : FireCounter where
  fired := counter.fired + .ofNat count
  unacknowledged := counter.unacknowledged + .ofNat count
  degraded := counter.degraded || stormMark ≤ counter.unacknowledged + .ofNat count

theorem FireCounter.after_zero {counter : FireCounter} (h : counter.unacknowledged < stormMark) :
    counter.after 0 = counter := by
  have hbelow : ¬stormMark ≤ counter.unacknowledged := UInt32.not_le.mpr h
  simp [after, hbelow]

theorem FireCounter.fire_after {count : Nat} {counter : FireCounter}
    (h : counter.unacknowledged.toNat + count < stormMark.toNat) :
    (counter.after count).fire.2 = counter.after (count + 1) := by
  have hmark : stormMark.toNat = 0xFFFE := rfl
  have hbelow : ¬stormMark ≤ counter.unacknowledged + UInt32.ofNat count := by
    rw [UInt32.le_iff_toNat_le, UInt32.toNat_add, UInt32.toNat_ofNat_of_lt' (by simp [UInt32.size]; omega)]
    omega
  have hnext : UInt32.ofNat (count + 1) = UInt32.ofNat count + 1 := UInt32.ofNat_add ..
  simp [fire, after, hbelow, hnext, UInt32.add_assoc]

/-- The fires of a line that are left until it is degraded. -/
def Memory.firesLeft (m : Memory) (id : Nat) : Nat := (FireCounter.stormMark - (m.counter id).unacknowledged).toNat

/-- A line fires as often as it takes to degrade it. -/
def Memory.storm (m : Memory) (id : Nat) : Memory :=
  { m with counters := m.counters.modify id (.after (m.firesLeft id)) }

theorem Memory.counters_fires (m : Memory) {id : Nat}
    (hcalm : (m.counter id).unacknowledged < FireCounter.stormMark) (count : Nat)
    (h : (m.counter id).unacknowledged.toNat + count ≤ FireCounter.stormMark.toNat) :
    (List.replicate count id).foldl (fun counters id => counters.modify id fun c => c.fire.2) m.counters =
      m.counters.modify id (FireCounter.after count) := by
  have hcounter : ∀ hsize : id < m.counters.size, m.counters[id] = m.counter id := fun hsize => by simp [counter, hsize]
  induction count with
  | zero =>
    refine Array.ext (by simp) fun j _ hj => ?_
    have hsize : j < m.counters.size := by simpa using hj
    simp only [List.replicate_zero, List.foldl_nil, Array.getElem_modify]
    split
    · rename_i hid
      subst hid
      rw [hcounter hsize]
      exact (FireCounter.after_zero hcalm).symm
    · rfl
  | succ count ih =>
    rw [List.replicate_succ', List.foldl_append, ih (by omega), List.foldl_cons, List.foldl_nil]
    refine Array.ext (by simp) fun j _ hj => ?_
    have hsize : j < m.counters.size := by simpa using hj
    simp only [Array.getElem_modify]
    split
    · rename_i hid
      subst hid
      rw [hcounter hsize]
      exact FireCounter.fire_after (by omega)
    · rfl

namespace Simulated

/-- A storm comes on a line whose handler counts, if it has not come before. -/
def storm (irq : UInt8) (m : Simulated) : Simulated :=
  match m.interrupts.vectors irq with
  | some (.counting line) =>
    if (m.interrupts.memory.counter line.id).unacknowledged < FireCounter.stormMark then
      m.unit fun u => { u.mask irq with memory := u.memory.storm line.id }
    else m
  | _ => m

/-- The machine, with a storm after so many calls. -/
def breaking (irq : UInt8) : Machine Platform (Simulated × Nat) where
  step call s :=
    let (r, m) := machine.step call s.1
    match s.2 with
    | 0 => (r, m, 0)
    | 1 => (r, m.storm irq, 0)
    | calls + 2 => (r, m, calls + 1)

theorem stirred_storm (irq : UInt8) (m : Simulated) :
    m.interrupts.exposure.Stirred (m.storm irq).interrupts.exposure := by
  unfold storm
  split
  · rename_i line hslot
    split
    · rename_i hcalm
      refine ⟨⟨List.replicate (m.interrupts.memory.firesLeft line.id) line.id, fun id hid => ?_, ?_⟩, fun _ => id⟩
      · rw [List.eq_of_mem_replicate hid]
        exact ⟨irq, line, hslot, rfl⟩
      · refine (m.interrupts.memory.counters_fires hcalm _ ?_).symm
        have hbelow : (m.interrupts.memory.counter line.id).unacknowledged ≤ FireCounter.stormMark :=
          UInt32.le_of_lt hcalm
        rw [Memory.firesLeft, UInt32.toNat_sub_of_le _ _ hbelow]
        exact Nat.le_of_eq (Nat.add_sub_cancel' (UInt32.le_iff_toNat_le.mp hbelow))
    · exact .refl _
  · exact .refl _

theorem keepsTo_breaking {φ : Platform.Call → Prop} (irq : UInt8) :
    (breaking irq).KeepsTo (Exposure.surroundings φ) fun s => s.1.interrupts.exposure := by
  rintro call ⟨m, calls⟩
  have hcalled := Exposure.stirred_called call m
  match calls with
  | 0 => exact ⟨Exposure.answers_simulated call m, hcalled⟩
  | 1 => exact ⟨Exposure.answers_simulated call m, hcalled.trans (stirred_storm irq _)⟩
  | calls + 2 => exact ⟨Exposure.answers_simulated call m, hcalled⟩

end Simulated
end Diskette
