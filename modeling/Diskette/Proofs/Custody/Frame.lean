import Diskette.Proofs.Ownership.Spurious

/-!
What a machine leaves alone that goes on by itself: the vector table, the masks, and the channels that are shut or
not wired to the controller. Nobody masks a line but a handler whose own line a storm has come over.
-/
namespace Diskette

open InterruptUnit

variable {u v w : InterruptUnit} {m m' : Simulated} {channel : Option UInt8} {call : Platform.Call}

namespace InterruptUnit

theorem isMasked_unmask_other {other irq : UInt8} (h : lineBit other &&& lineBit irq = 0) :
    (u.unmask other).isMasked irq = u.isMasked irq := by
  have hbit : ~~~lineBit other &&& lineBit irq = lineBit irq := by
    calc ~~~lineBit other &&& lineBit irq
      _ = lineBit other &&& lineBit irq ||| ~~~lineBit other &&& lineBit irq := by rw [h, UInt16.zero_or]
      _ = (lineBit other ||| ~~~lineBit other) &&& lineBit irq := by
        apply UInt16.toBitVec_inj.mp
        exact BitVec.and_or_distrib_right.symm
      _ = lineBit irq := by rw [UInt16.or_not_self, UInt16.neg_one_and]
  simp only [isMasked, unmask, UInt16.and_assoc, hbit]

theorem isMasked_mask_other {other irq : UInt8} (h : lineBit other &&& lineBit irq = 0) :
    (u.mask other).isMasked irq = u.isMasked irq := by
  rw [isMasked_mask, h]
  simp

theorem lineBit_and_lineBit {i j : UInt8} (hi : i ≤ 15) (hj : j ≤ 15) (hne : i ≠ j) :
    lineBit i &&& lineBit j = 0 := by
  have hbits : ∀ a < 16, ∀ b < 16, a ≠ b → lineBit (UInt8.ofNat a) &&& lineBit (UInt8.ofNat b) = 0 := by
    decide +kernel
  have hij := hbits i.toNat (Nat.lt_succ_of_le hi) j.toNat (Nat.lt_succ_of_le hj)
    fun hsame => hne (UInt8.toNat_inj.mp hsame)
  simpa only [UInt8.ofNat_toNat] using hij

/-- Some handler in the table counts on a line. -/
def Counts (u : InterruptUnit) (l : Line) : Prop := ∃ irq, u.vectors irq = some (.counting l)

/-- A storm has degraded a line that a handler counts on, and so the handler has masked it. -/
structure Stormed (u v : InterruptUnit) (l : Line) : Prop where
  counts : u.Counts l
  calm : (u.memory.counter l.id).degraded = false
  degraded : (v.memory.counter l.id).degraded = true

/-- A unit was left to its handlers. -/
structure Settles (u v : InterruptUnit) : Prop where
  vectors : v.vectors = u.vectors
  degraded : ∀ id, (u.memory.counter id).degraded = true → (v.memory.counter id).degraded = true
  masked : ∀ irq, u.isMasked irq = true → v.isMasked irq = true
  stormed : ∀ irq, v.isMasked irq = true →
    u.isMasked irq = true ∨ ∃ l, u.Stormed v l ∧ lineBit l.irq &&& lineBit irq ≠ 0

namespace Settles

theorem of_eq (hvectors : v.vectors = u.vectors) (hmasked : v.masked = u.masked)
    (hdegraded : ∀ id, (v.memory.counter id).degraded = (u.memory.counter id).degraded) : Settles u v := by
  have hsame : ∀ irq, v.isMasked irq = u.isMasked irq := fun irq => by simp only [isMasked, hmasked]
  refine ⟨hvectors, fun id => (hdegraded id).trans, fun irq => (hsame irq).trans, fun irq hirq => ?_⟩
  exact .inl ((hsame irq).symm.trans hirq)

theorem refl : Settles u u := .of_eq rfl rfl fun _ => rfl

theorem trans (h : Settles u v) (h' : Settles v w) : Settles u w := by
  refine ⟨h'.vectors.trans h.vectors, fun id => h'.degraded id ∘ h.degraded id,
    fun irq => h'.masked irq ∘ h.masked irq, fun irq hirq => ?_⟩
  rcases h'.stormed irq hirq with hirq | ⟨l, ⟨hcounts, hcalm, hdegraded⟩, hbit⟩
  · rcases h.stormed irq hirq with hirq | ⟨l, ⟨hcounts, hcalm, hdegraded⟩, hbit⟩
    · exact .inl hirq
    · exact .inr ⟨l, ⟨hcounts, hcalm, h'.degraded _ hdegraded⟩, hbit⟩
  · have hcalm₀ : (u.memory.counter l.id).degraded = false := by
      cases hl : (u.memory.counter l.id).degraded with
      | false => rfl
      | true => exact absurd (h.degraded _ hl) (by simp [hcalm])
    refine .inr ⟨l, ⟨?_, hcalm₀, hdegraded⟩, hbit⟩
    obtain ⟨i, hi⟩ := hcounts
    exact ⟨i, h.vectors ▸ hi⟩

end Settles

/-- A fire counted on some line degrades no other. -/
theorem degraded_of_countFire {memory : Memory} {id other : Nat} (h : (memory.counter id).degraded = true) :
    ((memory.countFire other).2.counter id).degraded = true := by
  by_cases hid : other = id
  · subst hid
    rw [degraded_countFire, h, Bool.true_or]
  · have hcounter := Memory.counter_modify memory other id fun counter => counter.fire.2
    rw [if_neg fun hboth => hid hboth.1] at hcounter
    rw [Memory.countFire, hcounter]
    exact h

/-- The fire that degrades a line is the one that masks it. -/
theorem settles_counting {irq : UInt8} {l : Line} (hslot : u.vectors irq = some (.counting l)) :
    Settles u ((Handler.dispatch (some (.counting l)) irq).run service u).2 := by
  rw [dispatch_counting]
  dsimp only
  split
  · rename_i hstorm
    have hcalm : (u.memory.counter l.id).degraded = false := by
      simp only [FireCounter.fire, Bool.and_eq_true, Bool.not_eq_true'] at hstorm
      exact hstorm.2
    have hdegraded : ((u.memory.countFire l.id).2.counter l.id).degraded = true := by
      rw [degraded_countFire, hstorm, Bool.or_true]
    refine ⟨rfl, fun _ => degraded_of_countFire, fun other hother => ?_, fun other hother => ?_⟩
    · rw [isMasked_mask]
      exact Bool.or_eq_true_iff.mpr (.inl hother)
    · rw [isMasked_mask] at hother
      rcases Bool.or_eq_true_iff.mp hother with hother | hbit
      · exact .inl hother
      · exact .inr ⟨l, ⟨⟨irq, hslot⟩, hcalm, hdegraded⟩, bne_iff_ne.mp hbit⟩
  · exact ⟨rfl, fun _ => degraded_of_countFire, fun _ => id, fun _ => .inl⟩

theorem settles_deliverLine (u : InterruptUnit) (irq : UInt8) : Settles u (u.deliverLine irq) := by
  unfold deliverLine
  split
  · have htaken : Settles u { u with pending := u.pending &&& ~~~lineBit irq } := .of_eq rfl rfl fun _ => rfl
    refine htaken.trans ?_
    generalize hu' : ({ u with pending := u.pending &&& ~~~lineBit irq } : InterruptUnit) = u'
    have hvectors : u.vectors = u'.vectors := by rw [← hu']
    cases hslot : u.vectors irq with
    | none => exact .of_eq rfl rfl fun _ => rfl
    | some handler =>
      cases handler with
      | acknowledging => exact .of_eq rfl rfl fun _ => rfl
      | counting l => exact settles_counting (hvectors ▸ hslot)
  · exact .refl

theorem Stirs.settles (h : u.Stirs v) : Settles u v := by
  refine h.invariant (K := Settles u) ?_ ?_ ?_ .refl
  · exact fun v irq hv => hv.trans (.of_eq rfl rfl fun _ => rfl)
  · exact fun v irq hv => hv.trans (settles_deliverLine v irq)
  · intro v memory hcounters _ hv
    refine hv.trans (.of_eq rfl rfl fun id => ?_)
    simp only [Memory.counter, hcounters]

end InterruptUnit

namespace Simulated

/-- Calls that swap no vector and turn to no line. Of the channels they turn to one at the most. -/
def Modest (channel : Option UInt8) : Platform.Call → Prop
  | .maskLine _ | .unmaskLine _ | .bind _ _ | .restore _ _ => False
  | .channel number _ => channel = some number
  | _ => True

/-- A machine was left to itself, but for one channel. -/
structure Settles (channel : Option UInt8) (m m' : Simulated) : Prop where
  interrupts : m.interrupts.Settles m'.interrupts
  channels : ∀ n, channel ≠ some n → n ≠ fdcChannel ∨ (m.channels n).masked = true → m'.channels n = m.channels n

theorem Reacts.settles (h : Reacts m m') : Settles channel m m' := ⟨h.interrupts.settles, fun n _ => h.channels n⟩

theorem Settles.trans {m'' : Simulated} (h : Settles channel m m') (h' : Settles channel m' m'') :
    Settles channel m m'' := by
  refine ⟨h.interrupts.trans h'.interrupts, fun n hother hn => ?_⟩
  have hsame := h.channels n hother hn
  rw [← hsame] at hn ⊢
  exact h'.channels n hother hn

theorem settles_step (m : Simulated) (hcall : Modest channel call) : Settles channel m (m.step call).2 := by
  cases call with
  | input port => exact (reacts_input m port).settles
  | output port value =>
    have hreacts := reacts_output m port value
    exact ⟨hreacts.interrupts.settles, fun n _ => hreacts.channels n⟩
  | resume wasEnabled =>
    cases wasEnabled with
    | false => exact ⟨.refl, fun _ _ _ => rfl⟩
    | true =>
      have henabled : m.interrupts.Settles { m.interrupts with enabled := true } := .of_eq rfl rfl fun _ => rfl
      exact ⟨henabled.trans (InterruptUnit.Stirs.refl.deliver).settles, fun _ _ _ => rfl⟩
  | memory call => exact ⟨.of_eq rfl rfl (Memory.degraded_step _ call), fun _ _ _ => rfl⟩
  | channel number call =>
    refine ⟨.of_eq rfl rfl fun _ => rfl, fun n hother _ => if_neg ?_⟩
    rintro rfl
    exact hother hcall
  | maskLine | unmaskLine | bind | restore => exact hcall.elim
  | _ => exact ⟨.of_eq rfl rfl fun _ => rfl, fun _ _ _ => rfl⟩

theorem settles_follows {r : Platform.Reply call} (hcall : Modest channel call)
    (h : restless.follows m call r m') : Settles channel m m' := by
  obtain ⟨m₁, hstep, hreacts⟩ := h
  have hm₁ := settles_step m hcall
  rw [hstep] at hm₁
  exact hm₁.trans hreacts.settles

end Simulated
end Diskette
