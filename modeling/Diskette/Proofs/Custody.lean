import Diskette.Proofs.Custody.Operations
import Diskette.Proofs.InterruptFlag
import Diskette.Proofs.Ownership

/-!
What is left of a controller that was found, used and released. Whatever has happened in the meantime, others find
their handlers, lines and channels as they were, and the controller quiet.
-/
namespace Diskette

open InterruptUnit Simulated

variable {m₀ m m' : Simulated} {x z : Controller × Simulated} {c₀ c c' : Controller} {opening : Opening}
  {placement : Placement} {stages : List (Stage Simulated)} {used : Prop}

theorem findable_restless (placement : Placement) : Controller.Findable restless placement
    (Lent m₀ none none false none) fun line m => Lent m₀ none none false none m ∧ ∀ l ∈ line, l.irq ≤ 15 where
  finds := by
    intro m call hcall h
    refine ⟨trivial, fun r m' hfollows => h.settles (settles_follows ?_ hfollows)⟩
    cases call with
    | input | output | log => trivial
    | _ => exact hcall.elim
  opens := by
    intro m h
    generalize hirq : placement.irq.filter Placement.usableIrq = irq?
    cases irq? with
    | none => exact ⟨h, by simp⟩
    | some irq =>
      have husable : irq ≤ 15 := by
        have hfilter := (Option.filter_eq_some_iff.mp hirq).2
        simp only [Placement.usableIrq, Bool.and_eq_true, decide_eq_true_eq] at hfilter
        exact hfilter.2
      refine ⟨trivial, fun l m' hfollows => ⟨h.settles (settles_follows (by trivial) hfollows), ?_⟩⟩
      rintro _ ⟨⟩
      obtain ⟨m₁, hstep, -⟩ := hfollows
      have hl : (⟨irq, m.interrupts.memory.counters.size⟩ : Line) = l := congrArg Prod.fst hstep
      rw [← hl]
      exact husable

/-- A new controller has nothing in its keeping yet. -/
theorem custody_new (hc : c.New placement) (hlent : Lent m₀ none none false none m) (husable : ∀ l ∈ c.line, l.irq ≤ 15) :
    Custody m₀ c (Custody.Rested False) c m := by
  refine ⟨rfl, rfl, rfl, husable, by simp [hc.hooked], by simp [hc.hooked], ?_, fun hrested => hrested.1.elim⟩
  rw [hc.hooked, hc.prior]
  exact hlent.entrust

theorem ensures_find_custody (opening : Opening) (hidle : (m₀.channels fdcChannel).masked = true) :
    (opening.find placement).Ensures restless
      (fun found m => ∀ c ∈ found, Custody m₀ c (Custody.Rested False) c m) m₀ := by
  refine (findable_restless placement).find (G := fun c m => Custody m₀ c (Custody.Rested False) c m)
    (fun c m hc h => custody_new hc h.1 h.2) ?_ opening (.start hidle)
  intro c m h
  exact (obliging_custody.bringUp c m h).mono fun _ _ _ h' => h'.self

/-- Whatever is asked of a controller, and whatever the hardware does in between. -/
theorem tenure_custody (h : Tenure restless.follows Reacts x stages z)
    (hx : Custody m₀ x.1 (Custody.Rested False) x.1 x.2) :
    Custody m₀ x.1 (Custody.Rested (Hooked x.1 stages)) z.1 z.2 := by
  induction h with
  | start => exact hx.hookUsed.mono fun hhooked => .inr (hooked_nil.mp hhooked)
  | stir _ hreacts ih => exact ih.settles hreacts.settles
  | @ask stages c c' m m' answer moments request _ hpassage ih =>
    have hrespond : Operation.Ensures restless request.respond
        (fun _ => Custody m₀ x.1 (Custody.Rested (Hooked x.1 stages))) c m := obliging_custody.respond request c m ih
    exact (hrespond.passage hpassage).2.hookUsed.mono hooked_append.mp

/-- Nothing is written but to the output register. -/
theorem ensures_release_written (c : Controller) (m : Simulated) : Operation.Ensures restless Operation.release
    (fun _ _ m' => m'.lastOutput c.base = some (0x04 + c.drive.index)) c m := by
  have hunwritten : ∀ {value : UInt8} {call : Platform.Call} {m : Simulated}, (∀ port byte, call ≠ .output port byte) →
      m.lastOutput c.base = some value → restless.permits m call ∧
        ∀ r m', restless.follows m call r m' → m'.lastOutput c.base = some value := by
    intro value call m hcall hm
    exact ⟨trivial, fun r m' hfollows => (lastOutput_follows hcall hfollows _).trans hm⟩
  have hlasts : ∀ value, Detachable restless fun _ m => m.lastOutput c.base = some value := fun _ =>
    { stance := fun _ => id
      givesUp := fun hcall => hunwritten (by rintro port byte rfl; exact hcall)
      takePrior := id
      unhook := id
      toPort := id }
  have hpatient : ∀ value, Patient restless fun _ m => m.lastOutput c.base = some value := fun _ =>
    { stance := fun _ => id
      plain := fun hcall => hunwritten (by rintro port byte rfl; exact hcall) }
  refine (hlasts _).release (hpatient _).maskChannel (Operation.ensures_shadowed.mpr ⟨trivial, fun r m' hfollows => ?_⟩)
  have hencode : DigitalOutput.encode { drive := c.drive } = 0x04 + c.drive.index := by
    cases c.drive <;> rfl
  have hlast : m'.lastOutput c.base = some (DigitalOutput.encode { drive := c.drive }) :=
    (lastOutput_output hfollows _).trans (if_pos rfl)
  exact hlast.trans (congrArg some hencode)

/-- A machine is handed back: as it was before, but for one line and one channel, which are shut. -/
structure HandedBack (m₀ : Simulated) (c₀ : Controller) (hooked : Prop) (drive : Drive) (m : Simulated) : Prop where
  vectors : m.interrupts.vectors = m₀.interrupts.vectors
  /-- Motors off, the gate closed, out of reset. -/
  output : m.lastOutput c₀.base = some (0x04 + drive.index)
  line : hooked → ∀ l ∈ c₀.line, m.interrupts.isMasked l.irq = true
  channel : ∀ n ∈ c₀.channel, (m.channels n).masked = true
  /-- The handlers from before mask no line unless there is a storm on it. -/
  otherLines : (∀ l, ¬m₀.interrupts.Stormed m.interrupts l) → ∀ irq ≤ 15, (∀ l ∈ c₀.line, l.irq ≠ irq) →
    m.interrupts.isMasked irq = m₀.interrupts.isMasked irq
  otherChannels : ∀ n, c₀.channel ≠ some n → m.channels n = m₀.channels n
  enabled : m.interrupts.enabled = m₀.interrupts.enabled

/-- A release hands the machine back, whatever was asked of the controller since it was found, however that came
out, and whatever the hardware has done in the meantime. -/
theorem release_restores {m₁ : Simulated} {moments moments' : List (Moment Platform Simulated)}
    (hidle : (m₀.channels fdcChannel).masked = true)
    (hopen : Passage restless.follows (opening.find placement) m₀ moments (some c₀) m₁)
    (h : Tenure restless.follows Reacts (c₀, m₁) stages (c, m))
    (hrelease : Passage restless.follows (Operation.release.run c) m moments' ((), c') m') :
    HandedBack m₀ c₀ (Hooked c₀ stages) c.drive m' := by
  have hfound : Custody m₀ c₀ (Custody.Rested False) c₀ m₁ :=
    ((ensures_find_custody opening hidle).passage hopen).2 c₀ rfl
  have hused := tenure_custody h hfound
  obtain ⟨hend, hnone, hmasked⟩ := ((ensures_release_custody hused).passage hrelease).2
  have hwritten := ((ensures_release_written c m).passage hrelease).2
  have hflag : m'.interrupts.enabled = m₀.interrupts.enabled := by
    have hopened := enabled_of_matched hopen (matched_find opening hopen.execution)
    have hreleased := enabled_of_matched hrelease (matched_of_tidy Wire.tidy_release hrelease.execution)
    exact hreleased.trans ((enabled_tenure h).trans hopened)
  have hlent := hend.lent
  rw [hend.line_eq, hend.channel_eq, hnone] at hlent
  refine ⟨hlent.vectors.trans (m₀.table_false _), ?_, fun hhooked l hl => ?_, ?_, fun hcalm irq hirq hother => ?_,
    hlent.channels, hflag⟩
  · rw [← hused.base_eq]
    exact hwritten
  · exact hend.shut ⟨hhooked, hnone⟩ l (hend.line_eq ▸ hl)
  · rw [← hend.channel_eq]
    exact hmasked
  · refine hlent.masks hcalm irq fun l hl => ?_
    exact lineBit_and_lineBit (hend.usable l (hend.line_eq ▸ hl)) hirq (hother l hl)

/-- A fresh machine where somebody else serves the line of the controller. -/
def Simulated.served : Simulated :=
  { interrupts :=
      { vectors := fun irq => if irq = 6 then some (.acknowledging 6) else none
        memory := { bounce := Array.replicate 4096 0 } } }

/-- The controller is discovered, its line fires for no reason, and interrupts cease to come; after a seek the
machine is handed back. -/
theorem release_restores_seek : ∃ (m₁ m m' : Simulated) (c₀ c c' : Controller)
    (moments moments' : List (Moment Platform Simulated)) (stages : List (Stage Simulated)),
    (served.channels fdcChannel).masked = true ∧
      Passage restless.follows (Opening.discover.find ⟨0x3F0, some 6, some 2⟩) served moments (some c₀) m₁ ∧
      Tenure restless.follows Reacts (c₀, m₁) stages (c, m) ∧
      Passage restless.follows (Operation.release.run c) m moments' ((), c') m' ∧
      c₀.hooked ∧ c₀.prior = some (.acknowledging 6) ∧ HandedBack served c₀ (Hooked c₀ stages) c.drive m' ∧
      m'.interrupts.vectors 6 = some (.acknowledging 6) ∧ m'.interrupts.isMasked 6 = true ∧
      m'.interrupts.isMasked 7 = true := by
  have hidle : (served.channels fdcChannel).masked = true := rfl
  have hfacts : let r := (Controller.discover ⟨0x3F0, some 6, some 2⟩).run Simulated.machine served
      r.1.map (fun c => (c.line, c.hooked, c.prior)) = some (some ⟨6, 0⟩, true, some (.acknowledging 6)) := by
    decide +kernel
  obtain ⟨moments, hopen⟩ := keepsTo_restless.passage (Opening.discover.find ⟨0x3F0, some 6, some 2⟩) served
  generalize hrun : (Controller.discover ⟨0x3F0, some 6, some 2⟩).run Simulated.machine served = result at hfacts
  change Passage _ _ _ _ ((Controller.discover ⟨0x3F0, some 6, some 2⟩).run Simulated.machine served).1
    ((Controller.discover ⟨0x3F0, some 6, some 2⟩).run Simulated.machine served).2 at hopen
  rw [hrun] at hopen
  obtain ⟨found, m₁⟩ := result
  obtain ⟨c₀, hfound, hc₀⟩ := Option.map_eq_some_iff.mp hfacts
  obtain ⟨hline, hhook⟩ := Prod.mk.inj hc₀
  obtain ⟨hhooked, hprior⟩ := Prod.mk.inj hhook
  replace hfound : found = some c₀ := hfound
  rw [hfound] at hopen
  obtain ⟨m₂, hspurious⟩ : ∃ m₂, Spurious m₁ m₂ := ⟨_, [6], rfl⟩
  have hfault : Reacts m₂ { m₂ with faults := { silent := true } } := .of_eq rfl rfl rfl
  have hfired : Tenure restless.follows Reacts (c₀, m₁) [] (c₀, { m₂ with faults := { silent := true } }) :=
    .stir (.stir .start hspurious.reacts) hfault
  obtain ⟨moments₁, hask⟩ := keepsTo_restless.passage ((Request.execute (.seek 3)).respond.run c₀)
    { m₂ with faults := { silent := true } }
  generalize ((Request.execute (.seek 3)).respond.run c₀).run Simulated.machine _ = asked at hask
  obtain ⟨⟨answer, c⟩, m⟩ := asked
  have htenure := Tenure.ask (.execute (.seek 3)) hfired hask
  obtain ⟨moments', hrelease⟩ := keepsTo_restless.passage (Operation.release.run c) m
  generalize (Operation.release.run c).run Simulated.machine m = released at hrelease
  obtain ⟨⟨_, c'⟩, m'⟩ := released
  have hback := release_restores hidle hopen htenure hrelease
  have hquiet : ∀ l, ¬served.interrupts.Stormed m'.interrupts l := by
    rintro l ⟨⟨irq, hslot⟩, -, -⟩
    by_cases hirq : irq = 6 <;> simp [served, hirq] at hslot
  refine ⟨m₁, m, m', c₀, c, c', moments, moments', _, hidle, hopen, htenure, hrelease, hhooked, hprior, hback, ?_, ?_, ?_⟩
  · exact congrFun hback.vectors 6
  · exact hback.line (.inl hhooked) ⟨6, 0⟩ hline
  · refine hback.otherLines hquiet 7 (by decide) fun l hl => ?_
    obtain rfl : l = ⟨6, 0⟩ := Option.some.inj (hl.symm.trans hline)
    decide

end Diskette
