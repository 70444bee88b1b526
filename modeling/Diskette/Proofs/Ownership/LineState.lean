import Diskette.Proofs.Framing
import Diskette.Proofs.Simulated.Interrupts

/-!
One interrupt line as its owner sees it: the vector table, whether the line is masked, and whether a storm has
degraded it. Of all that goes on in the interrupt unit, little shows here.
-/
namespace Diskette

open InterruptUnit

structure LineState where
  vectors : UInt8 → Option Handler
  masked : Bool
  degraded : Bool

/-- A handler that neither counts on a line nor masks it. -/
def Handler.Aloof (l : Line) : Handler → Prop
  | .acknowledging _ => True
  | .counting l' => l'.id ≠ l.id ∧ lineBit l'.irq &&& lineBit l.irq = 0

/-- A handler that does not count on a line. -/
def Handler.Other (l : Line) : Handler → Prop
  | .acknowledging _ => True
  | .counting l' => l'.id ≠ l.id

namespace LineState

variable {l : Line} {s s' : LineState}

/-- What the delivery of some interrupt does to a line. -/
inductive Serves (l : Line) (s : LineState) : LineState → Prop
  | aside : Serves l s s
  /-- The handler in its slot is another one, and masks the line. -/
  | displaced : (∀ h ∈ s.vectors l.irq, h.Other l) → Serves l s { s with masked := true }
  /-- The line is counted, and masked if that degrades it. -/
  | counted (storm : Bool) : s.vectors l.irq = some (.counting l) → s.masked = false →
      s.degraded = false → Serves l s { s with masked := storm, degraded := storm }

end LineState

namespace InterruptUnit

variable {u v : InterruptUnit} {l : Line}

def lineState (u : InterruptUnit) (l : Line) : LineState :=
  ⟨u.vectors, u.isMasked l.irq, (u.memory.counter l.id).degraded⟩

theorem lineBit_ne_zero (irq : UInt8) : lineBit irq ≠ 0 :=
  byte_forall (P := fun irq => lineBit irq ≠ 0) (by decide +kernel) irq

/-- Lines that share a bit of the mask are masked together. -/
theorem isMasked_mask (u : InterruptUnit) (other irq : UInt8) :
    (u.mask other).isMasked irq = (u.isMasked irq || lineBit other &&& lineBit irq != 0) := by
  have hbit : (u.masked ||| lineBit other) &&& lineBit irq =
      u.masked &&& lineBit irq ||| lineBit other &&& lineBit irq := by
    apply UInt16.toBitVec_inj.mp
    simp only [UInt16.toBitVec_and, UInt16.toBitVec_or, BitVec.and_or_distrib_right]
  simp only [isMasked, mask, hbit]
  generalize u.masked &&& lineBit irq = a
  generalize lineBit other &&& lineBit irq = b
  rw [Bool.eq_iff_iff]
  by_cases ha : a = 0
  · simp [ha]
  · simp [UInt16.or_eq_zero_iff, ha]

theorem isMasked_mask_self (u : InterruptUnit) (irq : UInt8) : (u.mask irq).isMasked irq = true := by
  rw [isMasked_mask, UInt16.and_self]
  simp [lineBit_ne_zero]

theorem isMasked_unmask (u : InterruptUnit) (irq : UInt8) : (u.unmask irq).isMasked irq = false := by
  have hbit : (u.masked &&& ~~~lineBit irq) &&& lineBit irq = 0 := by
    rw [UInt16.and_assoc, UInt16.not_and_self, UInt16.and_zero]
  simp [isMasked, unmask, hbit]

theorem lineState_mask (u : InterruptUnit) (l : Line) :
    (u.mask l.irq).lineState l = { u.lineState l with masked := true } := by
  simp only [lineState, isMasked_mask_self]
  rfl

theorem lineState_unmask (u : InterruptUnit) (l : Line) :
    (u.unmask l.irq).lineState l = { u.lineState l with masked := false } := by
  simp only [lineState, isMasked_unmask]
  rfl

/-- What a counting handler does: the fire is counted, and the one that degrades the line masks it. -/
theorem dispatch_counting (u : InterruptUnit) (l : Line) (irq : UInt8) :
    ((Handler.dispatch (some (.counting l)) irq).run service u).2 =
      let u' : InterruptUnit := { u.endOfInterrupt with memory := (u.memory.countFire l.id).2 }
      if (u.memory.counter l.id).fire.1 then u'.mask l.irq else u' := by
  have hfire : (u.memory.countFire l.id).1 = (u.memory.counter l.id).fire.1 := rfl
  simp only [Handler.dispatch, Handler.serve, Program.run_bind]
  rw [← hfire]
  split
  · rename_i hstorm
    have hstorm : (u.memory.countFire l.id).1 = true := hstorm
    rw [if_pos hstorm]
    rfl
  · rename_i hcalm
    have hcalm : ¬(u.memory.countFire l.id).1 = true := hcalm
    rw [if_neg hcalm]
    rfl

/-- A fire of another line. -/
theorem serves_other {l' : Line} (hid : l'.id ≠ l.id)
    (hmask : lineBit l'.irq &&& lineBit l.irq = 0 ∨ ∀ h ∈ u.vectors l.irq, h.Other l) (irq : UInt8) :
    LineState.Serves l (u.lineState l)
      (((Handler.dispatch (some (.counting l')) irq).run service u).2.lineState l) := by
  have hcounter : (u.memory.countFire l'.id).2.counter l.id = u.memory.counter l.id := by
    refine (Memory.counter_modify u.memory l'.id l.id _).trans ?_
    rw [if_neg fun h => hid h.1]
  have hcounted : ({ u.endOfInterrupt with memory := (u.memory.countFire l'.id).2 } :
      InterruptUnit).lineState l = u.lineState l := by
    simp only [lineState, hcounter]
    rfl
  rw [dispatch_counting]
  dsimp only
  generalize ({ u.endOfInterrupt with memory := (u.memory.countFire l'.id).2 } : InterruptUnit) = u' at hcounted
  have hmasked : (u'.mask l'.irq).lineState l =
      { u.lineState l with masked := u.isMasked l.irq || lineBit l'.irq &&& lineBit l.irq != 0 } := by
    have hsame : u'.isMasked l.irq = u.isMasked l.irq := congrArg LineState.masked hcounted
    have hkept : (u'.mask l'.irq).lineState l =
        { u'.lineState l with masked := (u'.mask l'.irq).isMasked l.irq } := rfl
    rw [hkept, isMasked_mask, hsame, hcounted]
  split
  · rw [hmasked]
    by_cases hbit : lineBit l'.irq &&& lineBit l.irq = 0
    · have hnone : (u.isMasked l.irq || lineBit l'.irq &&& lineBit l.irq != 0) = u.isMasked l.irq := by
        simp [hbit]
      rw [hnone]
      exact .aside
    · have hall : (u.isMasked l.irq || lineBit l'.irq &&& lineBit l.irq != 0) = true := by simp [hbit]
      rw [hall]
      exact .displaced (hmask.resolve_left hbit)
  · rw [hcounted]
    exact .aside

theorem degraded_countFire (memory : Memory) (id : Nat) : ((memory.countFire id).2.counter id).degraded =
    ((memory.counter id).degraded || (memory.counter id).fire.1) := by
  have hmodify := Memory.counter_modify memory id id fun counter => counter.fire.2
  change ((Memory.counter _ id).degraded) = _
  by_cases hsize : id < memory.counters.size
  · rw [Memory.countFire, hmodify, if_pos ⟨rfl, hsize⟩]
    cases hdegraded : (memory.counter id).degraded <;> simp [FireCounter.fire, hdegraded]
  · have hnone : memory.counter id = {} := by simp [Memory.counter, hsize]
    rw [Memory.countFire, hmodify, if_neg fun h => hsize h.2, hnone]
    rfl

/-- A fire of the line itself. -/
theorem serves_own (hslot : u.vectors l.irq = some (.counting l)) (hopen : u.isMasked l.irq = false)
    (irq : UInt8) : LineState.Serves l (u.lineState l)
      (((Handler.dispatch (some (.counting l)) irq).run service u).2.lineState l) := by
  have hcounted : ({ u.endOfInterrupt with memory := (u.memory.countFire l.id).2 } : InterruptUnit).lineState l =
      { u.lineState l with
        degraded := (u.memory.counter l.id).degraded || (u.memory.counter l.id).fire.1 } := by
    simp only [lineState, degraded_countFire]
    rfl
  rw [dispatch_counting]
  dsimp only
  cases hdegraded : (u.memory.counter l.id).degraded with
  | true =>
    have hquiet : (u.memory.counter l.id).fire.1 = false := by simp [FireCounter.fire, hdegraded]
    rw [hquiet, if_neg (by simp), hcounted, hdegraded, hquiet]
    have hsame : ({ u.lineState l with degraded := true || false } : LineState) = u.lineState l := by
      simp only [lineState, hdegraded, Bool.true_or]
    rw [hsame]
    exact .aside
  | false =>
    rw [hdegraded, Bool.false_or] at hcounted
    have hserves : ∀ storm,
        LineState.Serves l (u.lineState l) { u.lineState l with masked := storm, degraded := storm } :=
      fun storm => .counted storm hslot hopen hdegraded
    split
    · rename_i hstorm
      rw [hstorm] at hcounted
      rw [lineState_mask, hcounted]
      exact hserves true
    · rename_i hcalm
      rw [Bool.not_eq_true] at hcalm
      rw [hcounted, hcalm]
      have hsame : ({ u.lineState l with degraded := false } : LineState) =
          { u.lineState l with masked := false, degraded := false } := by
        simp only [lineState, hopen]
      rw [hsame]
      exact hserves false

theorem serves_deliverLine (hothers : ∀ i ≠ l.irq, ∀ h ∈ u.vectors i, h.Aloof l)
    (hslot : u.vectors l.irq = some (.counting l) ∨ ∀ h ∈ u.vectors l.irq, h.Other l) (irq : UInt8) :
    LineState.Serves l (u.lineState l) ((u.deliverLine irq).lineState l) := by
  unfold deliverLine
  split
  · rename_i hdelivers
    simp only [Bool.and_eq_true, Bool.not_eq_true'] at hdelivers
    obtain ⟨u', hu'⟩ : ∃ u', u' = { u with pending := u.pending &&& ~~~lineBit irq } := ⟨_, rfl⟩
    have hstate : u.lineState l = u'.lineState l := by rw [hu']; rfl
    have hvectors : u.vectors = u'.vectors := by rw [hu']
    rw [← hu', hstate]
    cases hirq : u.vectors irq with
    | none => exact .aside
    | some handler =>
      cases handler with
      | acknowledging i => exact .aside
      | counting l' =>
        by_cases hown : irq = l.irq
        · subst hown
          rcases hslot with hours | htheirs
          · have hl : l' = l := by simpa [hirq] using hours
            rw [hl]
            have hopen : u'.isMasked l.irq = false := by
              rw [hu']
              exact hdelivers.2
            exact serves_own (hvectors ▸ hours) hopen _
          · exact serves_other (htheirs _ hirq) (.inr (hvectors ▸ htheirs)) _
        · obtain ⟨hid, hbit⟩ := hothers irq hown _ hirq
          exact serves_other hid (.inl hbit) _
  · exact .aside

end InterruptUnit

namespace LineState

variable {l : Line} {s s' : LineState} {u v : InterruptUnit}

/-- No other slot has anything to do with the line, and a degraded line is masked. -/
structure Sheltered (l : Line) (s : LineState) : Prop where
  others : ∀ i ≠ l.irq, ∀ h ∈ s.vectors i, h.Aloof l
  shut : s.degraded → s.masked

/-- Another handler, or none, is in the slot of the line. -/
structure Free (l : Line) (s : LineState) : Prop extends Sheltered l s where
  slot : ∀ h ∈ s.vectors l.irq, h.Other l

/-- The handler of the line is in its slot, and the line is masked. -/
structure Held (l : Line) (s : LineState) : Prop extends Sheltered l s where
  slot : s.vectors l.irq = some (.counting l)
  masked : s.masked = true

/-- The handler of the line is in its slot, and the line is open unless a storm has shut it. -/
structure Served (l : Line) (s : LineState) : Prop extends Sheltered l s where
  slot : s.vectors l.irq = some (.counting l)
  open_iff : s.masked = s.degraded

theorem Serves.masked (h : Serves l s s') (hs : s.masked) : s'.masked := by
  cases h with
  | aside => exact hs
  | displaced => rfl
  | counted _ _ hopen => exact absurd hs (by simp [hopen])

/-- A condition on a line that no delivery breaks. -/
structure Lasts (l : Line) (P : LineState → Prop) : Prop where
  others : ∀ {s}, P s → ∀ i ≠ l.irq, ∀ h ∈ s.vectors i, h.Aloof l
  slot : ∀ {s}, P s → s.vectors l.irq = some (.counting l) ∨ ∀ h ∈ s.vectors l.irq, h.Other l
  serves : ∀ {s s'}, P s → Serves l s s' → P s'

theorem not_other (h : ∀ h ∈ s.vectors l.irq, h.Other l) : s.vectors l.irq ≠ some (.counting l) :=
  fun hslot => h _ hslot rfl

theorem lasts_free : Lasts l (Free l) := by
  refine ⟨fun h => h.others, fun h => .inr h.slot, fun h hserves => ?_⟩
  cases hserves with
  | aside => exact h
  | displaced => exact ⟨⟨h.others, fun _ => rfl⟩, h.slot⟩
  | counted _ hslot => exact absurd hslot (not_other h.slot)

/-- Nothing at all happens to a line that is held. -/
theorem Held.serves (h : Held l s) (hserves : Serves l s s') : s' = s := by
  cases hserves with
  | aside => rfl
  | displaced hother => exact absurd h.slot (not_other hother)
  | counted _ _ hopen => exact absurd h.masked (by simp [hopen])

theorem lasts_held : Lasts l (Held l) :=
  ⟨fun h => h.others, fun h => .inl h.slot, fun h hserves => (h.serves hserves).symm ▸ h⟩

theorem lasts_served : Lasts l (Served l) := by
  refine ⟨fun h => h.others, fun h => .inl h.slot, fun h hserves => ?_⟩
  cases hserves with
  | aside => exact h
  | displaced hother => exact absurd h.slot (not_other hother)
  | counted storm => exact ⟨⟨h.others, id⟩, h.slot, rfl⟩

theorem Lasts.and {P Q : LineState → Prop} (h : Lasts l P)
    (hQ : ∀ {s s'}, P s → Q s → Serves l s s' → Q s') : Lasts l fun s => P s ∧ Q s :=
  ⟨fun hs => h.others hs.1, fun hs => h.slot hs.1, fun hs hserves => ⟨h.serves hs.1 hserves, hQ hs.1 hs.2 hserves⟩⟩

/-- A line that is masked stays masked. -/
theorem Lasts.shut {P : LineState → Prop} {used : Prop} (h : Lasts l P) :
    Lasts l fun s => P s ∧ (used → s.masked) :=
  h.and fun _ hshut hserves hused => hserves.masked (hshut hused)

/-- A line that is masked, and that no storm can come over. -/
structure Vacant (l : Line) (s : LineState) : Prop extends Free l s where
  masked : s.masked = true
  calm : s.degraded = false

structure Installed (l : Line) (s : LineState) : Prop extends Held l s where
  calm : s.degraded = false

theorem lasts_vacant : Lasts l (Vacant l) := by
  refine ⟨fun h => h.others, fun h => .inr h.toFree.slot, fun h hserves => ?_⟩
  refine ⟨lasts_free.serves h.toFree hserves, hserves.masked h.masked, ?_⟩
  cases hserves with
  | aside => exact h.calm
  | displaced => exact h.calm
  | counted _ hslot => exact absurd hslot (not_other h.toFree.slot)

theorem lasts_installed : Lasts l (Installed l) :=
  ⟨fun h => h.others, fun h => .inl h.slot, fun h hserves => (h.serves hserves).symm ▸ h⟩

/-- The handler of the line in its slot. -/
def install (l : Line) (slot : Option Handler) (s : LineState) : LineState :=
  { s with vectors := fun i => if i = l.irq then slot else s.vectors i }

theorem others_install {slot : Option Handler} (h : ∀ i ≠ l.irq, ∀ h ∈ s.vectors i, h.Aloof l) :
    ∀ i ≠ l.irq, ∀ h ∈ (s.install l slot).vectors i, h.Aloof l := by
  intro i hi
  simp only [install, if_neg hi]
  exact h i hi

theorem Vacant.install (h : Vacant l s) : Installed l (s.install l (some (.counting l))) :=
  ⟨⟨⟨others_install h.others, h.shut⟩, by simp [LineState.install], h.masked⟩, h.calm⟩

theorem Held.install {slot : Option Handler} (h : Held l s) (hslot : ∀ h ∈ slot, h.Other l) :
    Free l (s.install l slot) ∧ (s.install l slot).masked = true :=
  ⟨⟨⟨others_install h.others, h.shut⟩, by simpa [LineState.install] using hslot⟩, h.masked⟩

theorem Installed.unmask (h : Installed l s) : Served l { s with masked := false } :=
  ⟨⟨h.others, fun hs => absurd hs (by simp [h.calm])⟩, h.slot, h.calm.symm⟩

theorem Served.mask (h : Served l s) : Held l { s with masked := true } := ⟨⟨h.others, fun _ => rfl⟩, h.slot, rfl⟩

theorem Free.mask (h : Free l s) (hcalm : s.degraded = false) : Vacant l { s with masked := true } :=
  ⟨⟨⟨h.others, fun _ => rfl⟩, h.slot⟩, rfl, hcalm⟩

theorem Lasts.stirs {P : LineState → Prop} (h : Lasts l P) (hstirs : u.Stirs v) (hu : P (u.lineState l)) :
    P (v.lineState l) := by
  refine hstirs.invariant (K := fun v => P (v.lineState l)) (fun _ _ hv => hv) ?_ ?_ hu
  · exact fun v irq hv => h.serves hv (serves_deliverLine (h.others hv) (h.slot hv) irq)
  · intro v memory hcounters _ hv
    have hcounter : memory.counter l.id = v.memory.counter l.id := by simp only [Memory.counter, hcounters]
    simp only [lineState, hcounter] at hv ⊢
    exact hv

end LineState
end Diskette
