import Diskette.Proofs.Conduct.Requests
import Diskette.Proofs.Ownership.Operations

/-!
Commands, and everything else that is asked of a controller, as the owner of an interrupt line sees them. A line
that was in use before a request, or comes to be left in the midst of it, is masked when it is not in use after it.
-/
namespace Diskette

open LineState InterruptUnit Simulated

variable {l : Line} {line : Option Line} {used : Prop} {c c' : Controller} {m m' : Simulated}

theorem Owner.mono {later : Prop} (h : Owner used line c m) (hlater : later → used) : Owner later line c m :=
  ⟨⟨h.line_eq, h.lined, h.cleared, fun hunhooked l hl => ⟨(h.free hunhooked l hl).1,
    fun hused => (h.free hunhooked l hl).2 (hlater hused)⟩, h.served⟩, h.hooked, h.routed, h.opened⟩

/-- A line that is in use was in use. -/
theorem Owner.hookUsed (h : Owner used line c m) : Owner (used ∨ c.hooked) line c m := by
  refine ⟨⟨h.line_eq, h.lined, h.cleared, fun hunhooked l hl => ⟨(h.free hunhooked l hl).1, fun hused => ?_⟩, h.served⟩,
    h.hooked, h.routed, h.opened⟩
  exact (h.free hunhooked l hl).2 (hused.resolve_right (by simp [hunhooked]))

/-- A line that nobody serves stays as calm as it was. -/
theorem LineState.lasts_calm : Lasts l fun s => Free l s ∧ s.degraded = false := by
  refine lasts_free.and fun hfree hcalm hserves => ?_
  cases hserves with
  | aside => exact hcalm
  | displaced => exact hcalm
  | counted _ hslot => exact absurd hslot (not_other hfree.slot)

/-- What a look at a line that is not in use tells of it is so after the look as well. -/
theorem ensures_degraded_line (hm : Free l (m.interrupts.lineState l)) : (Line.degraded l).Ensures guarded
    (fun stormy m' => stormy = false → (m'.interrupts.lineState l).degraded = false) m := by
  refine ⟨trivial, fun stormy m' hfollows hcalm => ?_⟩
  have hdegraded : (m.interrupts.lineState l).degraded = false := by
    obtain ⟨m₁, hstep, -⟩ := hfollows
    have hlook : (m.interrupts.memory.counter l.id).degraded = stormy := congrArg Prod.fst hstep
    exact hlook.trans hcalm
  exact (lasts_follows lasts_calm (by trivial) hfollows ⟨hm, hdegraded⟩).2

theorem keeps_enableDma_owner : Operation.Keeps guarded (Owner used line) Operation.enableDma.run := by
  refine .enableDma fun c m l h hl hchannel => ?_
  have hline : line = some l := h.line_eq.symm.trans hl
  have hkept : (Line.degraded l).Ensures guarded (fun _ m' => Owner used line c m') m :=
    steady_owner.calm.routine (.perform (by trivial)) h
  by_cases hpath : c.path = .channel
  · exact hkept.mono fun _ _ h' => ⟨h', fun _ hother => absurd hpath hother⟩
  · have hunhooked : c.hooked = false := Bool.eq_false_iff.mpr fun hhooked => hpath (h.hooked.mp hhooked)
    refine (hkept.and (ensures_degraded_line (h.free hunhooked l hline).1)).mono ?_
    rintro stormy m' ⟨h', hlook⟩
    exact ⟨h', fun hcalm _ => ensures_hookLine_owner hline h' hpath hchannel (hlook hcalm)⟩

theorem keeps_disableDma_owner : Operation.Keeps guarded (Owner used line) Operation.disableDma :=
  fun _ _ h => (ensures_disableDma_owner h.toTended).mono fun _ _ _ h' => h'.2.mono .inl

theorem armable_owner : ∀ t, Armable guarded (Owner used line) t := by
  have hlasts : ∀ {c m call r m'}, Neutral call → (∀ port value, call ≠ .output port value) → Owner used line c m →
      guarded.follows m call r m' → Owner used line c m' := fun hcall hsilent h hfollows =>
    ⟨h.toTended.follows hcall hfollows, h.hooked, h.routed,
      fun hpath => (h.opened hpath).of_writes (writes_follows hsilent (restless_of_guarded hfollows))⟩
  exact .of_stored (fun _ h => ⟨trivial, fun _ _ => hlasts (by trivial) nofun h⟩)
    fun h => ⟨trivial, fun _ _ => hlasts (by trivial) nofun h⟩

theorem obliging_owner : Obliging guarded (Owner used line) fun _ => Owner used line :=
  steady_owner.obliging armable_owner (fun _ h => ⟨h.toTended.of_eq rfl rfl rfl, h.hooked, h.routed, h.opened⟩)
    keeps_enableDma_owner keeps_disableDma_owner

/-- Whatever is asked of a controller, it owns its line between that and the next request. -/
theorem ensures_respond_owner (request : Request) (h : Owner used line c m) :
    Operation.Ensures guarded request.respond
      (fun _ c' m' => Owner (used ∨ c.hooked) line c' m') c m :=
  obliging_owner.respond request c m h.hookUsed

end Diskette
