import Diskette.Proofs.Conduct.Calm

/-!
Taking the DMA path and leaving it. It is taken only after a look at the line; to leave it takes no more than a mask
on the line, a closed gate, and the handler that was there before.
-/
namespace Diskette

variable {σ : Type} {E : Surroundings Platform σ} {K : Controller → σ → Prop} {c : Controller} {s : σ}

/-- The DMA path takes a channel, and a line that a look at it finds in order. -/
theorem Operation.Keeps.enableDma (h : ∀ c s l, K c s → c.line = some l → c.channel.isSome →
    (Line.degraded l).Ensures E (fun stormy s' => K c s' ∧ (stormy = false → c.path ≠ .channel →
      Operation.Ensures E (Operation.hookLine l) (fun _ => K) c s')) s) :
    Operation.Keeps E K Operation.enableDma.run := by
  intro c s hK
  rw [Attempt.ensures_run]
  simp only [Operation.enableDma, Attempt.ensures_bind, Attempt.ensures_get, Attempt.ensures_ite]
  split
  · exact hK
  rename_i hchannel
  have hsome : c.channel.isSome := by
    cases hc : c.channel with
    | none => exact absurd (by rw [hc]; rfl) hchannel
    | some => rfl
  split
  · exact hK
  rename_i l hl
  rw [Attempt.ensures_bind, Attempt.ensures_lift]
  refine (h c s l hK hl hsome).mono ?_
  rintro stormy s' ⟨hK', hhook⟩
  simp only [Attempt.ensures_bind, Attempt.ensures_ite]
  split
  · exact hK'
  rename_i hcalm
  split
  · exact hK'
  · rename_i hpath
    rw [Attempt.ensures_operation]
    exact hhook (by simpa using hcalm) hpath

namespace Sedate

theorem abandonLine (h : Sedate E K) (hdisable : Operation.Keeps E K Operation.disableDma) (l : Line) :
    Operation.Keeps E K (Operation.abandonLine l) :=
  .get_bind fun c s hK => by
    rw [Operation.ensures_ite]
    split
    · exact Operation.Keeps.bind (h.log _) (fun _ => hdisable) c s hK
    · exact hK

/-- Whatever a look at the line finds. -/
theorem noticeStorm (h : Sedate E K) (hdisable : Operation.Keeps E K Operation.disableDma) :
    Operation.Keeps E K Operation.noticeStorm := by
  intro c s hK
  simp only [Operation.noticeStorm, Operation.ensures_bind, Operation.ensures_get]
  split
  · exact hK
  · rename_i l _
    have hlook : Operation.Keeps E K (liftM (Line.degraded l) : Operation Bool) :=
      .lift fun c s hK => h.within (.perform (by trivial)) hK
    refine Operation.Keeps.bind hlook (fun stormy => ?_) c s hK
    refine .ite (fun _ => ?_) fun _ => .pure
    exact .bind (h.abandonLine hdisable l) fun _ => .get_bind fun _ _ hK => hK

end Sedate

/-- Calls that give up the line of a controller that has its handler installed. -/
def GivesUp (c : Controller) : Platform.Call → Prop
  | .maskLine irq | .restore irq _ => c.irq = some irq ∧ c.hooked
  | call => Inward call

theorem givesUp_of_inward {call : Platform.Call} (h : Inward call) : GivesUp c call := by
  cases call <;> first | exact h.elim | exact h

/-- A condition that does not count on the line. -/
structure Detachable (E : Surroundings Platform σ) (K : Controller → σ → Prop) : Prop extends Sedate E K where
  givesUp : ∀ {c s call}, GivesUp c call → K c s → E.permits s call ∧ ∀ r s', E.follows s call r s' → K c s'
  takePrior : ∀ {c s}, K c s → K { c with prior := none } s
  unhook : ∀ {c s}, K c s → K { c with hooked := false, prior := none } s
  toPort : ∀ {c s}, K c s → K { c with path := .port } s
  inward hcall hK := givesUp (givesUp_of_inward hcall) hK

/-- A condition that does not count on the DMA path. -/
structure Leavable (E : Surroundings Platform σ) (K : Controller → σ → Prop) : Prop extends Detachable E K where
  writeOutput : ∀ {f : Shadow → DigitalOutput},
    (∀ s, s.output.resetAsserted = false → (f s).resetAsserted = false) →
    Operation.Keeps E K (Operation.shadowed fun s => s.writeOutput (f s))

namespace Detachable

theorem routine {α : Type} {p : Routine α} (h : Detachable E K) (hp : p.Only (GivesUp c)) (hK : K c s) :
    p.Ensures E (fun _ => K c) s := hp.ensures (fun _ _ hcall hs => h.givesUp hcall hs) hK

theorem maskIfHooked (h : Detachable E K) : Operation.Keeps E K Operation.maskIfHooked := by
  intro c s hK
  simp only [Operation.maskIfHooked, Operation.ensures_bind, Operation.ensures_get]
  split
  · rename_i line hline hhooked
    rw [Operation.ensures_lift]
    exact h.routine (.perform ⟨by simp [Controller.irq, hline], hhooked⟩) hK
  · exact hK

theorem unbind (h : Detachable E K) : Operation.Keeps E K Operation.unbind := by
  intro c s hK
  simp only [Operation.unbind, Operation.ensures_bind, Operation.ensures_get]
  split
  · rename_i line hline hhooked
    have hrestore : (Platform.uninterrupted (Platform.restore line.irq c.prior)).Only
        (GivesUp { c with prior := none }) :=
      Platform.only_uninterrupted (by trivial) (by intro; trivial)
        (.perform ⟨by simp [Controller.irq, hline], hhooked⟩)
    rw [Operation.ensures_bind, Operation.ensures_takePrior, Operation.ensures_bind, Operation.ensures_lift]
    exact (h.routine hrestore (h.takePrior hK)).mono fun _ _ => h.unhook
  · exact hK

/-- What the last write to the output register brings about lasts. -/
theorem release (h : Detachable E K) (hmask : Operation.Keeps E K Operation.maskChannel)
    (hwrite : Operation.Ensures E (Operation.shadowed fun s => s.writeOutput { drive := s.output.drive })
      (fun _ => K) c s) : Operation.Ensures E Operation.release (fun _ => K) c s := by
  refine Operation.ensures_bind.mpr (hwrite.mono fun _ c₁ s₁ h₁ => ?_)
  refine Operation.Keeps.bind h.maskIfHooked (fun _ => ?_) c₁ s₁ h₁
  refine .bind h.unbind fun _ => .bind hmask fun _ => ?_
  exact .bind (.modify fun _ _ => h.toPort) fun _ => h.log _

end Detachable

namespace Leavable

theorem disableDma (h : Leavable E K) : Operation.Keeps E K Operation.disableDma := by
  have hclose : Operation.Keeps E K Operation.closeGate :=
    .get_bind fun c s hK => by
      rw [Operation.ensures_ite]
      split
      · exact h.writeOutput (f := fun s => { s.output with gate := false }) (fun _ => id) c s hK
      · exact hK
  have hlog : Operation.Keeps E K Operation.logPolled :=
    .get_bind fun c s hK => by
      rw [Operation.ensures_ite]
      split
      · exact h.log _ c s hK
      · exact hK
  exact .bind h.maskIfHooked fun _ => .bind hclose fun _ => .bind h.unbind fun _ => .bind hlog fun _ =>
    .modify fun _ _ => h.toPort

theorem release (h : Leavable E K) (hmask : Operation.Keeps E K Operation.maskChannel) :
    Operation.Keeps E K Operation.release :=
  fun c s hK => h.toDetachable.release hmask (h.writeOutput (by exact fun _ _ => rfl) c s hK)

end Leavable
end Diskette
