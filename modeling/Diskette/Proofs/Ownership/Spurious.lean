import Diskette.Proofs.Conduct.Steady
import Diskette.Proofs.Ownership.LineState
import Diskette.Proofs.Surroundings

/-!
A simulated machine where spurious interrupts come after any call, or the hardware does whatever else it may. What
a call does to one interrupt line, and to the registers that were written.
-/
namespace Diskette

open LineState InterruptUnit

variable {l : Line} {m m' : Simulated} {P : LineState → Prop} {call : Platform.Call}
  {r : Platform.Reply call}

/-- What no interrupt changes. -/
structure InterruptUnit.Steadfast (u v : InterruptUnit) : Prop where
  enabled : v.enabled = u.enabled
  vectors : v.vectors = u.vectors
  lines : v.memory.counters.size = u.memory.counters.size

theorem InterruptUnit.Stirs.steadfast {u v : InterruptUnit} (h : u.Stirs v) : u.Steadfast v := by
  refine h.invariant (K := u.Steadfast) (fun _ _ hv => ⟨hv.enabled, hv.vectors, hv.lines⟩) ?_
    (fun v _ hcounters _ hv => ⟨hv.enabled, hv.vectors, (congrArg Array.size hcounters).trans hv.lines⟩) ⟨rfl, rfl, rfl⟩
  intro v irq hv
  have hserve : ∀ u' : InterruptUnit,
      u'.Steadfast ((Handler.dispatch (v.vectors irq) irq).run service u').2 := by
    intro u'
    cases v.vectors irq with
    | none => exact ⟨rfl, rfl, rfl⟩
    | some handler =>
      cases handler with
      | acknowledging => exact ⟨rfl, rfl, rfl⟩
      | counting l' =>
        have hsize : (u'.memory.countFire l'.id).2.counters.size = u'.memory.counters.size := by
          simp [Memory.countFire]
        rw [dispatch_counting]
        dsimp only
        split <;> exact ⟨rfl, rfl, hsize⟩
  unfold deliverLine
  split
  · have hserved := hserve { v with pending := v.pending &&& ~~~lineBit irq }
    exact ⟨hserved.enabled.trans hv.enabled, hserved.vectors.trans hv.vectors, hserved.lines.trans hv.lines⟩
  · exact hv

/-- Nothing is counted with the flag clear. -/
theorem InterruptUnit.Stirs.counters {u v : InterruptUnit} (h : u.Stirs v) (hu : u.enabled = false) :
    v.memory.counters = u.memory.counters := by
  refine (h.invariant (K := fun v => v.enabled = false ∧ v.memory.counters = u.memory.counters)
    (fun _ _ hv => hv) ?_ (fun _ _ hcounters _ hv => ⟨hv.1, hcounters.trans hv.2⟩) ⟨hu, rfl⟩).2
  rintro v irq ⟨hv, hcounters⟩
  have hsame : v.deliverLine irq = v := by simp [InterruptUnit.deliverLine, hv]
  rw [hsame]
  exact ⟨hv, hcounters⟩

namespace Simulated

/-- Some lines, any number of times each, are raised by nobody. -/
def Spurious (m m' : Simulated) : Prop :=
  ∃ irqs : List UInt8, m' = m.unit fun u => irqs.foldl (fun u irq => (u.raise irq).deliver) u

/-- Surroundings that swap a vector for a masked line only, with interrupts suppressed, and where spurious
interrupts come after each call. -/
def guarded : Surroundings Platform Simulated where
  permits m
    | .bind irq _ | .restore irq _ => m.interrupts.isMasked irq = true ∧ m.interrupts.enabled = false
    | _ => True
  follows m call r m' := ∃ m₁, m.step call = (r, m₁) ∧ Spurious m₁ m'

/-- The simulated machine by itself, with nothing spurious going on. -/
theorem keepsTo_guarded : machine.KeepsTo guarded id := fun _ _ => ⟨_, rfl, [], rfl⟩

theorem Spurious.reacts (h : Spurious m m') : Reacts m m' := by
  obtain ⟨irqs, rfl⟩ := h
  refine ⟨?_, rfl, fun _ _ => rfl⟩
  change m.interrupts.Stirs (irqs.foldl (fun u irq => (u.raise irq).deliver) m.interrupts)
  generalize m.interrupts = u
  induction irqs generalizing u with
  | nil => exact .refl
  | cons irq irqs ih => exact (Stirs.raise irq .refl).deliver.trans (ih _)

/-- Surroundings that stand any call, and where the hardware goes on by itself after each. -/
def restless : Surroundings Platform Simulated where
  permits _ _ := True
  follows m call r m' := ∃ m₁, m.step call = (r, m₁) ∧ Reacts m₁ m'

theorem keepsTo_restless : machine.KeepsTo restless id := fun _ _ => ⟨_, rfl, .of_eq rfl rfl rfl⟩

theorem restless_of_guarded (h : guarded.follows m call r m') : restless.follows m call r m' := by
  obtain ⟨m₁, hstep, hspurious⟩ := h
  exact ⟨m₁, hstep, hspurious.reacts⟩

/-- Calls that leave the vectors and the masks alone. -/
def Neutral : Platform.Call → Prop
  | .maskLine _ | .unmaskLine _ | .bind _ _ | .restore _ _ => False
  | _ => True

theorem lasts_step (hP : Lasts l P) (hcall : Neutral call)
    (hm : P (m.interrupts.lineState l)) : P ((m.step call).2.interrupts.lineState l) := by
  cases call with
  | input port => exact hP.stirs (reacts_input m port).interrupts hm
  | output port value => exact hP.stirs (reacts_output m port value).interrupts hm
  | resume wasEnabled =>
    cases wasEnabled with
    | false => exact hm
    | true => exact hP.stirs (u := { m.interrupts with enabled := true }) (.deliver .refl) hm
  | memory call =>
    have hstate : (m.step (.memory call)).2.interrupts.lineState l = m.interrupts.lineState l := by
      change LineState.mk _ _ _ = LineState.mk _ _ _
      congr 1
      exact Memory.degraded_step m.interrupts.memory call l.id
    rw [hstate]
    exact hm
  | maskLine | unmaskLine | bind | restore => exact hcall.elim
  | _ => exact hm

theorem fired_step (hclear : m.interrupts.enabled = false) (hcall : ∀ b, call ≠ .resume b) (id : Nat) :
    ((m.step call).2.interrupts.memory.counter id).fired = (m.interrupts.memory.counter id).fired := by
  have hcounter : ∀ {u v : InterruptUnit}, u.Stirs v → u.enabled = false →
      (v.memory.counter id).fired = (u.memory.counter id).fired := by
    intro u v hstirs hu
    rw [Memory.counter, hstirs.counters hu]
    rfl
  cases call with
  | input port => exact hcounter (reacts_input m port).interrupts hclear
  | output port value => exact hcounter (reacts_output m port value).interrupts hclear
  | unmaskLine irq => exact hcounter (u := m.interrupts.unmask irq) (.deliver .refl) hclear
  | memory call => exact Memory.fired_step m.interrupts.memory call id
  | resume b => exact absurd rfl (hcall b)
  | _ => rfl

theorem lasts_follows (hP : Lasts l P) (hcall : Neutral call) (h : guarded.follows m call r m')
    (hm : P (m.interrupts.lineState l)) : P (m'.interrupts.lineState l) := by
  obtain ⟨m₁, hstep, hspurious⟩ := h
  have hm₁ : P (m₁.interrupts.lineState l) := by
    have hnext := lasts_step hP hcall hm
    rwa [hstep] at hnext
  exact hP.stirs hspurious.reacts.interrupts hm₁

theorem writes_step (hcall : ∀ port value, call ≠ .output port value) : (m.step call).2.writes = m.writes := by
  cases call with
  | output port value => exact absurd rfl (hcall port value)
  | input port => exact (reacts_input m port).writes
  | resume wasEnabled => cases wasEnabled <;> rfl
  | _ => rfl

theorem writes_follows (hcall : ∀ port value, call ≠ .output port value) (h : restless.follows m call r m') :
    m'.writes = m.writes := by
  obtain ⟨m₁, hstep, hreacts⟩ := h
  have hm₁ : m₁.writes = m.writes := by
    have hnext := writes_step (m := m) hcall
    rwa [hstep] at hnext
  exact hreacts.writes.trans hm₁

theorem lastOutput_follows (hcall : ∀ port value, call ≠ .output port value)
    (h : restless.follows m call r m') (base : UInt16) : m'.lastOutput base = m.lastOutput base := by
  unfold lastOutput
  rw [writes_follows hcall h]

theorem lastOutput_output {port : UInt16} {value : UInt8} {r : Platform.Reply (.output port value)}
    (h : restless.follows m (.output port value) r m') (base : UInt16) :
    m'.lastOutput base = if port = Port.digitalOutput base then some value else m.lastOutput base := by
  obtain ⟨m₁, hstep, hreacts⟩ := h
  have hm₁ : m₁.writes = (port, value) :: m.writes := by
    have hnext := (reacts_output m port value).writes
    have hsecond : m.output port value = m₁ := congrArg Prod.snd hstep
    rwa [hsecond] at hnext
  unfold lastOutput
  rw [hreacts.writes, hm₁, List.find?_cons]
  by_cases hport : port = Port.digitalOutput base
  · simp [hport]
  · have hne : (port == Port.digitalOutput base) = false := beq_false_of_ne hport
    rw [if_neg hport]
    simp only [hne]

end Simulated
end Diskette
