import Diskette.Proofs.Ownership.Commands
import Diskette.Proofs.Simulated.Discovery

/-!
The interrupt line of a controller is its own. From discovery to release, spurious interrupts or not, the driver's
handler is in the slot of the line just while the DMA path is taken, and the line is open no longer than that. The
slot changes hands behind a mask only, with interrupts suppressed.
-/
namespace Diskette

open LineState InterruptUnit Simulated

variable {line : Option Line} {used : Prop} {c c₀ : Controller} {m m' : Simulated} {opening : Opening}
  {placement : Placement} {stages : List (Stage Simulated)}

namespace Simulated

/-- Handlers count on lines that there are, and those in other slots have no say in the mask of a line. -/
def Undisturbed (irq : UInt8) (m : Simulated) : Prop :=
  ∀ i l, m.interrupts.vectors i = some (.counting l) →
    l.id < m.interrupts.memory.counters.size ∧ (i ≠ irq → lineBit l.irq &&& lineBit irq = 0)

/-- Others are busy with lines of their own. -/
structure Elsewhere (line : Option Line) (m m' : Simulated) : Prop where
  same : ∀ l ∈ line, m'.interrupts.vectors l.irq = m.interrupts.vectors l.irq ∧
    m'.interrupts.isMasked l.irq = m.interrupts.isMasked l.irq ∧
    (m'.interrupts.memory.counter l.id).degraded = (m.interrupts.memory.counter l.id).degraded
  aloof : ∀ l ∈ line, ∀ i ≠ l.irq, ∀ h ∈ m'.interrupts.vectors i, h.Aloof l
  opened : ∀ base, m.Opened base → m'.Opened base

theorem Undisturbed.reacts {irq : UInt8} (h : m.Undisturbed irq) (hreacts : Reacts m m') : m'.Undisturbed irq := by
  have hkept := hreacts.interrupts.steadfast
  intro i l hslot
  rw [hkept.vectors] at hslot
  rw [hkept.lines]
  exact h i l hslot

/-- A new line is free. -/
theorem ensures_openLine_free {irq? : Option UInt8} (h : ∀ irq ∈ irq?, m.Undisturbed irq) :
    (Controller.openLine irq?).Ensures guarded
      (fun line m' => ∀ l ∈ line, Free l (m'.interrupts.lineState l)) m := by
  cases irq? with
  | none => exact nofun
  | some irq =>
    refine ⟨trivial, ?_⟩
    rintro l m' ⟨m₁, hstep, hspurious⟩ _ ⟨⟩
    obtain rfl : (⟨irq, m.interrupts.memory.counters.size⟩ : Line) = l := congrArg Prod.fst hstep
    obtain rfl : (m.step (.memory (.createLine irq))).2 = m₁ := congrArg Prod.snd hstep
    refine lasts_free.stirs hspurious.reacts.interrupts ?_
    have hcalm : ((m.interrupts.memory.step (.createLine irq)).2.counter
        m.interrupts.memory.counters.size).degraded = false := by
      rw [Memory.degraded_step]
      simp [Memory.counter]
    refine ⟨⟨?_, fun hdegraded => ?_⟩, ?_⟩
    · intro i hi handler hslot
      cases handler with
      | acknowledging => trivial
      | counting l' =>
        obtain ⟨hid, hbit⟩ := h irq rfl i l' hslot
        exact ⟨Nat.ne_of_lt hid, hbit hi⟩
    · exact absurd hdegraded (by rw [Bool.not_eq_true]; exact hcalm)
    · intro handler hslot
      cases handler with
      | acknowledging => trivial
      | counting l' => exact Nat.ne_of_lt (h irq rfl irq l' hslot).1

end Simulated

theorem findable_guarded (placement : Placement) : Controller.Findable guarded placement
    (fun m => ∀ irq ∈ placement.irq, m.Undisturbed irq)
    fun line m => ∀ l ∈ line, Free l (m.interrupts.lineState l) where
  finds := by
    intro m call hcall hm
    cases call with
    | input port =>
      refine ⟨trivial, ?_⟩
      rintro r m' ⟨m₁, hstep, hspurious⟩ irq hirq
      obtain rfl : (m.input port).2 = m₁ := congrArg Prod.snd hstep
      exact ((hm irq hirq).reacts (reacts_input m port)).reacts hspurious.reacts
    | output port value =>
      refine ⟨trivial, ?_⟩
      rintro r m' ⟨m₁, hstep, hspurious⟩ irq hirq
      obtain rfl : m.output port value = m₁ := congrArg Prod.snd hstep
      have hlogged : ({ m with writes := (port, value) :: m.writes } : Simulated).Undisturbed irq := hm irq hirq
      exact (hlogged.reacts (reacts_output m port value)).reacts hspurious.reacts
    | log base event =>
      refine ⟨trivial, ?_⟩
      rintro r m' ⟨m₁, hstep, hspurious⟩ irq hirq
      obtain rfl : (m.step (.log base event)).2 = m₁ := congrArg Prod.snd hstep
      exact Undisturbed.reacts (hm irq hirq) hspurious.reacts
    | _ => exact hcall.elim
  opens hm := ensures_openLine_free fun irq hirq => hm irq (Option.mem_filter_iff.mp hirq).1

/-- A new controller on a free line has never used it. -/
theorem owner_new (hc : c.New placement) (hline : ∀ l ∈ c.line, Free l (m.interrupts.lineState l)) :
    Owner False c.line c m :=
  ⟨⟨rfl, by simp [hc.hooked], fun _ => hc.prior, fun _ l hl => ⟨hline l hl, False.elim⟩, by simp [hc.hooked]⟩,
    by simp [hc.hooked, hc.path], by simp [hc.path], by simp [hc.path]⟩

theorem ensures_find_owner (opening : Opening) (h : ∀ irq ∈ placement.irq, m.Undisturbed irq) :
    (opening.find placement).Ensures guarded (fun found m' => ∀ c ∈ found, Owner False c.line c m') m := by
  refine (findable_guarded placement).find (fun c m hc hline => owner_new hc hline) ?_ opening h
  intro c m h
  exact (obliging_owner.bringUp c m h).mono fun _ c' m' h' => h'.line_eq.symm ▸ h'

theorem Owner.spurious (h : Owner used line c m) (hspurious : Spurious m m') : Owner used line c m' := by
  have hstirs := hspurious.reacts.interrupts
  have hserved : c.hooked → ∀ l ∈ line,
      LineState.Served l (m'.interrupts.lineState l) ∧ ∀ h ∈ c.prior, h.Other l :=
    fun hhooked l hl => ⟨lasts_served.stirs hstirs (h.served hhooked l hl).1, (h.served hhooked l hl).2⟩
  have hfree : c.hooked = false → ∀ l ∈ line,
      Free l (m'.interrupts.lineState l) ∧ (used → (m'.interrupts.lineState l).masked) :=
    fun hunhooked l hl => lasts_free.shut.stirs hstirs (h.free hunhooked l hl)
  exact ⟨⟨h.line_eq, h.lined, h.cleared, hfree, hserved⟩, h.hooked, h.routed,
    fun hpath => (h.opened hpath).of_writes hspurious.reacts.writes⟩

theorem Owner.elsewhere (h : Owner used line c m) (helsewhere : Elsewhere line m m') : Owner used line c m' := by
  have hsheltered : ∀ l ∈ line, Sheltered l (m.interrupts.lineState l) → Sheltered l (m'.interrupts.lineState l) := by
    intro l hl hm
    obtain ⟨-, hmasked, hdegraded⟩ := helsewhere.same l hl
    refine ⟨helsewhere.aloof l hl, fun hd => ?_⟩
    exact hmasked.trans (hm.shut (hdegraded.symm.trans hd))
  refine ⟨⟨h.line_eq, h.lined, h.cleared, fun hunhooked l hl => ?_, fun hhooked l hl => ?_⟩, h.hooked, h.routed,
    fun hpath => helsewhere.opened _ (h.opened hpath)⟩
  · obtain ⟨hfree, hshut⟩ := h.free hunhooked l hl
    obtain ⟨hslot, hmasked, -⟩ := helsewhere.same l hl
    exact ⟨⟨hsheltered l hl hfree.toSheltered, fun other hother => hfree.slot other (hslot.symm.trans hother)⟩,
      fun hused => hmasked.trans (hshut hused)⟩
  · obtain ⟨hserved, hprior⟩ := h.served hhooked l hl
    obtain ⟨hslot, hmasked, hdegraded⟩ := helsewhere.same l hl
    exact ⟨⟨hsheltered l hl hserved.toSheltered, hslot.trans hserved.slot,
      hmasked.trans (hserved.open_iff.trans hdegraded.symm)⟩, hprior⟩

theorem Owner.path_of_unhooked (h : Owner used line c m) (hunhooked : c.hooked = false) : c.path = .port := by
  cases hpath : c.path with
  | port => rfl
  | channel => exact absurd (h.hooked.mpr hpath) (by simp [hunhooked])

/-- What can be told of the line of a controller from outside, and of the gate to it. -/
structure Owned (used : Prop) (c : Controller) (m : Simulated) : Prop where
  hooked : c.path = .channel ↔ c.hooked
  wired : c.path = .channel → c.line.isSome ∧ c.channel.isSome ∧ c.shadow.output.gate = true ∧ m.Opened c.base
  slot : ∀ l ∈ c.line, c.hooked ↔ m.interrupts.vectors l.irq = some (.counting l)
  /-- What the handler has displaced is another one, and is remembered no longer than it is displaced. -/
  prior : (c.hooked = false → c.prior = none) ∧ ∀ l ∈ c.line, c.prior ≠ some (.counting l)
  unmasked : ∀ l ∈ c.line, c.hooked → (m.interrupts.memory.counter l.id).degraded = false →
    m.interrupts.isMasked l.irq = false
  masked : ∀ l ∈ c.line, (m.interrupts.memory.counter l.id).degraded = true ∨ c.hooked = false ∧ used →
    m.interrupts.isMasked l.irq = true

theorem Owner.owned (h : Owner used line c m) : Owned used c m := by
  have hserved : ∀ l ∈ c.line, c.hooked →
      LineState.Served l (m.interrupts.lineState l) ∧ ∀ h ∈ c.prior, h.Other l :=
    fun l hl hhooked => h.served hhooked l (h.line_eq ▸ hl)
  have hfree : ∀ l ∈ c.line, c.hooked = false →
      Free l (m.interrupts.lineState l) ∧ (used → (m.interrupts.lineState l).masked) :=
    fun l hl hunhooked => h.free hunhooked l (h.line_eq ▸ hl)
  refine ⟨h.hooked.symm, fun hpath => ?_, fun l hl => ⟨fun hhooked => ?_, fun hslot => ?_⟩, ⟨h.cleared, ?_⟩, ?_, ?_⟩
  · obtain ⟨hchannel, hgate⟩ := h.routed hpath
    exact ⟨h.line_eq ▸ h.lined (h.hooked.mpr hpath), hchannel, hgate, h.opened hpath⟩
  · exact (hserved l hl hhooked).1.slot
  · cases hhooked : c.hooked with
    | true => rfl
    | false => exact absurd hslot (not_other (hfree l hl hhooked).1.slot)
  · intro l hl hprior
    cases hhooked : c.hooked with
    | true => exact (hserved l hl hhooked).2 _ hprior rfl
    | false => exact absurd ((h.cleared hhooked).symm.trans hprior) nofun
  · exact fun l hl hhooked hcalm => (hserved l hl hhooked).1.open_iff.trans hcalm
  · rintro l hl (hdegraded | ⟨hunhooked, hused⟩)
    · cases hhooked : c.hooked with
      | false => exact (hfree l hl hhooked).1.shut hdegraded
      | true => exact (hserved l hl hhooked).1.shut hdegraded
    · exact (hfree l hl hunhooked).2 hused

/-- The handler was installed when the controller was found, or after some stage. -/
def Hooked (c₀ : Controller) (stages : List (Stage Simulated)) : Prop :=
  c₀.hooked ∨ ∃ stage ∈ stages, stage.after.1.hooked

theorem hooked_nil : Hooked c₀ [] ↔ c₀.hooked := by simp [Hooked]

theorem hooked_append {stage : Stage Simulated} :
    Hooked c₀ (stages ++ [stage]) ↔ Hooked c₀ stages ∨ stage.after.1.hooked := by
  simp [Hooked, or_assoc, or_and_right, exists_or]

/-- Calls that the line allows. -/
def Lawful (moments : List (Moment Platform Simulated)) : Prop :=
  ∀ moment ∈ moments, guarded.permits moment.state moment.exchange.call

theorem tenure_owner {x z : Controller × Simulated}
    (h : Tenure guarded.follows (fun m m' => Spurious m m' ∨ Elsewhere line m m') x stages z)
    (hx : Owner False line x.1 x.2) :
    Owner (Hooked x.1 stages) line z.1 z.2 ∧ ∀ stage ∈ stages, Lawful stage.moments := by
  induction h with
  | start =>
    refine ⟨hx.hookUsed.mono fun hhooked => ?_, by simp⟩
    exact .inr (hooked_nil.mp hhooked)
  | stir _ hstirs ih =>
    obtain ⟨howner, hlawful⟩ := ih
    rcases hstirs with hspurious | helsewhere
    · exact ⟨howner.spurious hspurious, hlawful⟩
    · exact ⟨howner.elsewhere helsewhere, hlawful⟩
  | @ask stages c c' m m' answer moments request _ hpassage ih =>
    obtain ⟨howner, hlawful⟩ := ih
    obtain ⟨hmoments, howner'⟩ := (ensures_respond_owner request howner).passage hpassage
    refine ⟨howner'.hookUsed.mono fun hhooked => ?_, ?_⟩
    · exact (hooked_append.mp hhooked).imp_left .inl
    · intro stage hstage
      rcases List.mem_append.mp hstage with hold | hlast
      · exact hlawful stage hold
      · obtain rfl := List.mem_singleton.mp hlast
        exact hmoments

/-- At any point between two requests the line is owned, and so it is after a release; in none of them the slot
of a line is swapped unless the line is masked and interrupts are suppressed. -/
theorem owns_line {m₀ m₁ : Simulated} {moments : List (Moment Platform Simulated)}
    (hundisturbed : ∀ irq ∈ placement.irq, m₀.Undisturbed irq)
    (hopen : Passage guarded.follows (opening.find placement) m₀ moments (some c₀) m₁)
    (h : Tenure guarded.follows (fun m m' => Spurious m m' ∨ Elsewhere c₀.line m m') (c₀, m₁) stages (c, m)) :
    Lawful moments ∧ (∀ stage ∈ stages, Lawful stage.moments) ∧ Owned (Hooked c₀ stages) c m ∧
      ∀ c' m' moments, Passage guarded.follows (Operation.release.run c) m moments ((), c') m' →
        Lawful moments ∧ c'.hooked = false ∧ Owned (Hooked c₀ stages) c' m' := by
  obtain ⟨hlawful, hfound⟩ := (ensures_find_owner opening hundisturbed).passage hopen
  obtain ⟨howner, hstages⟩ := tenure_owner h (hfound c₀ rfl)
  refine ⟨hlawful, hstages, howner.owned, fun c' m' moments hpassage => ?_⟩
  obtain ⟨hmoments, hnone, howner'⟩ := (ensures_release_owner howner.toTended).passage hpassage
  exact ⟨hmoments, hnone, (howner'.mono .inl).owned⟩

/-- A fresh machine: the controller is discovered, its line fires for no reason, and the DMA path is left again. -/
theorem owns_line_fired : ∃ (m₀ m₁ m : Simulated) (c₀ c : Controller) (moments : List (Moment Platform Simulated))
    (stages : List (Stage Simulated)), (∀ irq ∈ some (6 : UInt8), m₀.Undisturbed irq) ∧
      Passage guarded.follows (Opening.discover.find ⟨0x3F0, some 6, some 2⟩) m₀ moments (some c₀) m₁ ∧
      Tenure guarded.follows (fun m m' => Spurious m m' ∨ Elsewhere c₀.line m m') (c₀, m₁) stages (c, m) ∧
      (Lawful moments ∧ (∀ stage ∈ stages, Lawful stage.moments) ∧ Owned (Hooked c₀ stages) c m) ∧
      c₀.path = .channel ∧ c.path = .port ∧ m.interrupts.isMasked 6 = true := by
  have hundisturbed : ∀ irq ∈ some (6 : UInt8), ({} : Simulated).Undisturbed irq := by
    rintro irq - i l ⟨⟩
  obtain ⟨c₀, m₁, hrun, -⟩ := discover_fresh (some 6) (some 2)
  have hfacts : let r := (Controller.discover ⟨0x3F0, some 6, some 2⟩).run Simulated.machine {}
      r.1.bind (fun c => c.line) = some ⟨6, 0⟩ ∧ r.1.map (fun c => c.path) = some .channel := by decide +kernel
  obtain ⟨moments, hopen⟩ := keepsTo_guarded.passage (Opening.discover.find ⟨0x3F0, some 6, some 2⟩) {}
  change Passage _ _ _ _ ((Controller.discover ⟨0x3F0, some 6, some 2⟩).run Simulated.machine {}).1
    ((Controller.discover ⟨0x3F0, some 6, some 2⟩).run Simulated.machine {}).2 at hopen
  rw [hrun] at hfacts hopen
  obtain ⟨hline, hpath⟩ := hfacts
  replace hline : c₀.line = some ⟨6, 0⟩ := hline
  replace hpath : c₀.path = .channel := Option.some.inj hpath
  -- The line fires, and then the path is left.
  obtain ⟨m₂, hspurious⟩ : ∃ m₂, Spurious m₁ m₂ := ⟨_, [6], rfl⟩
  obtain ⟨moments', hask⟩ := keepsTo_guarded.passage (Request.disableDma.respond.run c₀) m₂
  generalize (Request.disableDma.respond.run c₀).run Simulated.machine m₂ = result at hask
  obtain ⟨⟨answer, c⟩, m⟩ := result
  have hfired : Tenure guarded.follows (fun m m' => Spurious m m' ∨ Elsewhere c₀.line m m') (c₀, m₁) [] (c₀, m₂) :=
    .stir .start (.inl hspurious)
  have htenure := Tenure.ask .disableDma hfired hask
  obtain ⟨hlawful, hstages, howned, -⟩ := owns_line hundisturbed hopen htenure
  -- The handler was installed, and it is gone.
  have hfound : Owner False c₀.line c₀ m₁ :=
    ((ensures_find_owner .discover hundisturbed).passage hopen).2 c₀ rfl
  have hdisable : Operation.Ensures guarded Request.disableDma.respond
      (fun _ c' m' => c'.hooked = false ∧ Owner _ c₀.line c' m') c₀ m₂ :=
    Operation.ensures_bind.mpr (ensures_disableDma_owner (tenure_owner hfired hfound).1.toTended)
  obtain ⟨-, hnone, hend⟩ := hdisable.passage hask
  have hmasked := howned.masked ⟨6, 0⟩ (hend.line_eq.trans hline) (.inr ⟨hnone, .inl (hfound.hooked.mpr hpath)⟩)
  exact ⟨_, m₁, m, c₀, c, moments, _, hundisturbed, hopen, htenure, ⟨hlawful, hstages, howned⟩, hpath,
    hend.path_of_unhooked hnone, hmasked⟩

end Diskette
