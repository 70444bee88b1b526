import Diskette.Proofs.Ownership.LineState
import Diskette.Proofs.Ownership.Spurious

/-!
What is pending in an interrupt unit, and what a delivery makes of it. With the flag set nothing waits but behind a
mask, so that the one line that is raised next is the only one that is served.
-/
namespace Diskette.InterruptUnit

variable {u v : InterruptUnit} {irq i : UInt8} {l : Line}

/-- An interrupt of the line can be delivered at once. -/
def Due (u : InterruptUnit) (irq : UInt8) : Prop := u.isPending irq = true ∧ u.isMasked irq = false

/-- Nothing can be delivered. -/
def Drained (u : InterruptUnit) : Prop := ∀ irq ∈ lines, ¬u.Due irq

/-- Nothing that can be delivered is held back but by the flag. -/
def Alert (u : InterruptUnit) : Prop := u.enabled = true → u.Drained

theorem lineBit_disjoint : ∀ i ∈ lines, ∀ j ∈ lines, i ≠ j → lineBit i &&& lineBit j = 0 := by
  decide +kernel

theorem isPending_raise (u : InterruptUnit) (irq i : UInt8) :
    (u.raise irq).isPending i = (u.isPending i || lineBit irq &&& lineBit i != 0) :=
  -- The pending bits are set as the masks are.
  isMasked_mask { u with masked := u.pending } irq i

theorem isPending_raise_self (u : InterruptUnit) (irq : UInt8) : (u.raise irq).isPending irq = true :=
  isMasked_mask_self { u with masked := u.pending } irq

theorem isPending_clear_self (pending : UInt16) (irq : UInt8) : pending &&& ~~~lineBit irq &&& lineBit irq = 0 := by
  rw [UInt16.and_assoc, UInt16.not_and_self, UInt16.and_zero]

/-- What is pending with some bits cleared was pending with them. -/
theorem pending_of_clear {pending bits bit : UInt16} (h : pending &&& bits &&& bit ≠ 0) : pending &&& bit ≠ 0 := by
  intro hnone
  refine h ?_
  rw [UInt16.and_assoc, UInt16.and_comm bits, ← UInt16.and_assoc, hnone, UInt16.zero_and]

/-- A handler raises no line, and unmasks none. -/
structure Handled (u v : InterruptUnit) : Prop where
  pending : ∀ irq, v.isPending irq = true → u.isPending irq = true
  masked : ∀ irq, u.isMasked irq = true → v.isMasked irq = true

theorem Handled.due (h : Handled u v) (hv : v.Due irq) : u.Due irq := by
  refine ⟨h.pending irq hv.1, ?_⟩
  cases hmasked : u.isMasked irq with
  | false => rfl
  | true => exact absurd (h.masked irq hmasked) (by simp [hv.2])

theorem handled_mask (u : InterruptUnit) (irq : UInt8) : Handled u (u.mask irq) :=
  ⟨fun _ => id, fun i hi => by rw [isMasked_mask, hi, Bool.true_or]⟩

theorem handled_dispatch (slot : Option Handler) (irq : UInt8) (u : InterruptUnit) :
    Handled u ((Handler.dispatch slot irq).run service u).2 := by
  cases slot with
  | none => exact ⟨fun _ => id, fun _ => id⟩
  | some handler =>
    cases handler with
    | acknowledging => exact ⟨fun _ => id, fun _ => id⟩
    | counting l =>
      rw [dispatch_counting]
      dsimp only
      split
      · have hmask := handled_mask { u.endOfInterrupt with memory := (u.memory.countFire l.id).2 } l.irq
        exact ⟨hmask.pending, hmask.masked⟩
      · exact ⟨fun _ => id, fun _ => id⟩

theorem deliverLine_of_not_due (h : ¬u.Due irq) : u.deliverLine irq = u := by
  refine if_neg fun hdue => h ?_
  simp only [Bool.and_eq_true, Bool.not_eq_true'] at hdue
  exact ⟨hdue.1.2, hdue.2⟩

theorem deliverLine_of_due (henabled : u.enabled = true) (h : u.Due irq) : u.deliverLine irq =
    ((Handler.dispatch (u.vectors irq) irq).run service { u with pending := u.pending &&& ~~~lineBit irq }).2 := by
  refine if_pos ?_
  rw [henabled, h.1, h.2]
  rfl

theorem handled_deliverLine (u : InterruptUnit) (irq : UInt8) : Handled u (u.deliverLine irq) := by
  unfold deliverLine
  split
  · have hserved := handled_dispatch (u.vectors irq) irq { u with pending := u.pending &&& ~~~lineBit irq }
    refine ⟨fun i hi => ?_, hserved.masked⟩
    have hpending := hserved.pending i hi
    simp only [isPending, bne_iff_ne] at hpending ⊢
    exact pending_of_clear hpending
  · exact ⟨fun _ => id, fun _ => id⟩

/-- A line that is served is not pending any more. -/
theorem not_due_deliverLine (henabled : u.enabled = true) : ¬(u.deliverLine irq).Due irq := by
  by_cases hdue : u.Due irq
  · rw [deliverLine_of_due henabled hdue]
    intro hstill
    have hpending := (handled_dispatch (u.vectors irq) irq
      { u with pending := u.pending &&& ~~~lineBit irq }).pending irq hstill.1
    simp [isPending, isPending_clear_self] at hpending
  · rw [deliverLine_of_not_due hdue]
    exact hdue

theorem foldl_deliverLine_of_not_due {irqs : List UInt8} (h : ∀ irq ∈ irqs, ¬u.Due irq) :
    irqs.foldl deliverLine u = u := by
  induction irqs with
  | nil => rfl
  | cons irq irqs ih =>
    rw [List.foldl_cons, deliverLine_of_not_due (h irq List.mem_cons_self)]
    exact ih fun i hi => h i (List.mem_cons_of_mem irq hi)

theorem deliver_of_drained (h : u.Drained) : u.deliver = u := foldl_deliverLine_of_not_due h

theorem deliver_of_suppressed (h : u.enabled = false) : u.deliver = u := by
  have hline : ∀ irq, u.deliverLine irq = u := by simp [deliverLine, h]
  unfold deliver
  induction lines with
  | nil => rfl
  | cons irq irqs ih => rw [List.foldl_cons, hline, ih]

/-- The line that is due is the one that is served, if no other is. -/
theorem deliver_of_due (hline : irq ∈ lines) (hothers : ∀ i ∈ lines, i ≠ irq → ¬u.Due i) :
    u.deliver = u.deliverLine irq := by
  obtain ⟨before, later, hsplit⟩ := List.append_of_mem hline
  have honce : (before ++ irq :: later).Nodup := by
    rw [← hsplit]
    decide
  have hnew : irq ∉ before ∧ irq ∉ later := by
    rw [List.nodup_append, List.nodup_cons] at honce
    exact ⟨fun hmem => honce.2.2 irq hmem irq List.mem_cons_self rfl, honce.2.1.1⟩
  rw [hsplit] at hothers
  have hbefore : ∀ i ∈ before, ¬u.Due i := by
    intro i hi
    exact hothers i (List.mem_append_left _ hi) fun he => hnew.1 (he ▸ hi)
  have hlater : ∀ i ∈ later, ¬(u.deliverLine irq).Due i := by
    intro i hi hdue
    refine hothers i (List.mem_append_right _ (List.mem_cons_of_mem irq hi)) (fun he => hnew.2 (he ▸ hi)) ?_
    exact (handled_deliverLine u irq).due hdue
  unfold deliver
  rw [hsplit, List.foldl_append, foldl_deliverLine_of_not_due hbefore, List.foldl_cons,
    foldl_deliverLine_of_not_due hlater]

/-- With the flag set a delivery leaves nothing behind but what is masked. -/
theorem alert_deliver (u : InterruptUnit) : u.deliver.Alert := by
  -- Lines that were served stay so while the others are.
  have hserved : ∀ (irqs : List UInt8) (u : InterruptUnit), u.enabled = true → ∀ i,
      (i ∈ irqs ∨ ¬u.Due i) → ¬(irqs.foldl deliverLine u).Due i := by
    intro irqs
    induction irqs with
    | nil =>
      intro u _ i hi
      simpa using hi
    | cons irq irqs ih =>
      intro u henabled i hi
      have hline := ((Stirs.refl (u := u)).serve irq).steadfast.enabled
      refine ih (u.deliverLine irq) (hline.trans henabled) i ?_
      rcases hi with hi | hi
      · rcases List.mem_cons.mp hi with rfl | hi
        · exact .inr (not_due_deliverLine henabled)
        · exact .inl hi
      · exact .inr fun hdue => hi ((handled_deliverLine u irq).due hdue)
  intro henabled irq hirq
  have hbefore : u.enabled = true := (Stirs.refl (u := u)).deliver.steadfast.enabled.symm.trans henabled
  exact hserved lines u hbefore irq (.inl hirq)

/-- A line with its handler in its slot, whose interrupts come through, and that no storm has come over. -/
structure Attended (l : Line) (u : InterruptUnit) : Prop where
  wired : l.irq ∈ lines
  enabled : u.enabled = true
  slot : u.vectors l.irq = some (.counting l)
  unmasked : u.isMasked l.irq = false
  enrolled : l.id < u.memory.counters.size
  calm : (u.memory.counter l.id).degraded = false

/-- Nothing of it is held back. -/
structure Heard (l : Line) (u : InterruptUnit) : Prop extends Attended l u where
  drained : u.Drained

/-- What has come of the pending bits and of the other counters does not matter. -/
theorem Attended.of_eq (h : Attended l u) (henabled : v.enabled = u.enabled) (hmasked : v.masked = u.masked)
    (hvectors : v.vectors = u.vectors) (hsize : v.memory.counters.size = u.memory.counters.size)
    (hcalm : (v.memory.counter l.id).degraded = (u.memory.counter l.id).degraded) : Attended l v := by
  refine ⟨h.wired, henabled.trans h.enabled, hvectors ▸ h.slot, ?_, hsize ▸ h.enrolled, hcalm.trans h.calm⟩
  rw [isMasked, hmasked]
  exact h.unmasked

theorem counter_countFire {memory : Memory} {id : Nat} (h : id < memory.counters.size) :
    (memory.countFire id).2.counter id = (memory.counter id).fire.2 :=
  (memory.counter_modify id id _).trans (if_pos ⟨rfl, h⟩)

/-- An interrupt of the line alone is counted once, and leaves the line as it was. -/
theorem Attended.rings (h : Attended l u) (hpending : u.isPending l.irq = true)
    (hothers : ∀ i ∈ lines, i ≠ l.irq → ¬u.Due i) (hacknowledged : (u.memory.counter l.id).unacknowledged = 0) :
    Heard l u.deliver ∧ (u.deliver.memory.counter l.id).fired = (u.memory.counter l.id).fired + 1 := by
  have hfew : (u.memory.counter l.id).fire.1 = false := by
    simp only [FireCounter.fire, hacknowledged]
    rfl
  have hserved := deliver_of_due h.wired hothers
  rw [deliverLine_of_due h.enabled ⟨hpending, h.unmasked⟩, h.slot, dispatch_counting] at hserved
  dsimp only at hserved
  rw [if_neg (by rw [Bool.not_eq_true]; exact hfew)] at hserved
  have halert := alert_deliver u
  rw [hserved] at halert ⊢
  have hcounter : (u.memory.countFire l.id).2.counter l.id = (u.memory.counter l.id).fire.2 :=
    counter_countFire h.enrolled
  refine ⟨⟨h.of_eq rfl rfl rfl (Array.size_modify ..) ?_, halert h.enabled⟩, congrArg FireCounter.fired hcounter⟩
  refine (congrArg FireCounter.degraded hcounter).trans ?_
  simp only [FireCounter.fire, hacknowledged, Bool.or_eq_left_iff_imp]
  exact fun hstorm => absurd hstorm (by decide)

end Diskette.InterruptUnit
