import Diskette.Proofs.Coherence.Changes
import Diskette.Proofs.Coherence.Registers
import Diskette.Proofs.Simulated.Core
import Diskette.Proofs.Simulated.Fixture

/-!
The shadow of the registers is what they hold. From the first look at a controller to its release, whatever the
platform answers and whatever becomes of it in between, they were written last what the shadow says, and the
shadow changes with what is asked for only. On a simulated machine that can be seen in the register itself.
-/
namespace Diskette

open Simulated

variable {σ : Type} {follows : σ → (c : Platform.Call) → Platform.Reply c → σ → Prop} {stirs : σ → σ → Prop}
  {base : UInt16} {c c' c₀ : Controller} {stages : List (Stage σ)} {opening : Opening} {placement : Placement}
  {t h : History Platform}

theorem tenure_coherent {x z : Controller × σ} (htenure : Tenure follows stirs x stages z)
    (hcoherent : Coherent base x.1 h) (hstanding : Standing x.1) :
    Coherent base z.1 (h ++ stages.flatMap Stage.history) ∧ Standing z.1 ∧
      ∀ stage ∈ stages, stage.request.Changes stage.answer stage.before.1 stage.after.1 stage.history := by
  induction htenure with
  | start => exact ⟨by simpa using hcoherent, hstanding, by simp⟩
  | stir _ _ ih => exact ih
  | @ask stages c c' s s' answer moments request _ hpassage ih =>
    obtain ⟨hbefore, hc, hchanges⟩ := ih
    have hexec := hpassage.execution
    have hafter : Coherent base c' (h ++ stages.flatMap Stage.history ++ moments.map (·.exchange)) :=
      hexec.recorded_after (obliging_coherent.respond request c _ hbefore)
    have hlast := hexec.recorded (ensures_respond_changes request hc)
    refine ⟨by simpa [Stage.history] using hafter, hexec.recorded (stands_respond request c [] hc), ?_⟩
    intro stage hstage
    rcases List.mem_append.mp hstage with hold | hnew
    · exact hchanges stage hold
    · obtain rfl := List.mem_singleton.mp hnew
      exact hlast

theorem ensures_release_coherent (hcoherent : Coherent base c t) :
    Operation.Ensures recorded Operation.release (fun _ c' t' => Coherent base c' t' ∧
      c'.shadow = { c.shadow with output := { c.shadow.output with motors := .off, gate := false } }) c t := by
  let shadow := { c.shadow with output := { c.shadow.output with motors := .off, gate := false } }
  have hstance : ∀ {c c' : Controller} {t : History Platform}, c'.stance = c.stance →
      Coherent base c t ∧ c.shadow = shadow → Coherent base c' t ∧ c'.shadow = shadow := by
    intro c c' t hc h
    have hshadow : c'.stance.shadow = c.stance.shadow := by rw [hc]
    exact ⟨h.1.of_shadow hshadow, Eq.trans hshadow h.2⟩
  have hlasts : Detachable recorded fun c' t' => Coherent base c' t' ∧ c'.shadow = shadow :=
    { stance := hstance
      givesUp := fun hcall h => (leavable_coherent.givesUp hcall h.1).imp_right fun hf r t' hr => ⟨hf r t' hr, h.2⟩
      takePrior := fun h => ⟨h.1.of_shadow rfl, h.2⟩
      unhook := fun h => ⟨h.1.of_shadow rfl, h.2⟩
      toPort := fun h => ⟨h.1.of_shadow rfl, h.2⟩ }
  have hpatient : Patient recorded fun c' t' => Coherent base c' t' ∧ c'.shadow = shadow :=
    { stance := hstance
      plain := fun hcall h => (calm_coherent.plain hcall h.1).imp_right fun hf r t' hr => ⟨hf r t' hr, h.2⟩ }
  refine hlasts.release hpatient.maskChannel ((coherent_writeOutput (fun _ _ => rfl) c t hcoherent).and ?_)
  have hreset : c.shadow.output.resetAsserted = false := hcoherent.outOfReset
  refine Operation.ensures_shadowed.mpr ⟨trivial, fun _ _ _ => ?_⟩
  change Shadow.mk _ _ _ = Shadow.mk _ _ _
  simp only [hreset]
  rfl

/-- After all that was called and answered, the registers hold what the shadow says; in each stage it has changed as
was asked for; and so it does when the controller is released. -/
structure Mirrored (base : UInt16) (h : History Platform) (stages : List (Stage σ)) (c : Controller) : Prop where
  coherent : Coherent base c h
  changes : ∀ stage ∈ stages, stage.request.Changes stage.answer stage.before.1 stage.after.1 stage.history
  released : ∀ u c', Execution (Operation.release.run c) u ((), c') → Coherent base c' (h ++ u) ∧
    c'.shadow = { c.shadow with output := { c.shadow.output with motors := .off, gate := false } }

theorem find_coherent {s s' : σ} {moments : List (Moment Platform σ)}
    (hopen : Passage follows (opening.find placement) s moments (some c₀) s') :
    Coherent placement.base c₀ (moments.map (·.exchange)) ∧ Standing c₀ := by
  have hstanding : Yields (opening.find placement) fun found => ∀ c ∈ found, Standing c := by
    cases opening with
    | probe => exact yields_probe placement
    | discover => exact yields_discover placement
  exact ⟨hopen.execution.recorded (coherent_find placement opening) c₀ rfl,
    hopen.execution.recorded (hstanding []) c₀ rfl⟩

theorem mirrored_of_tenure {s s₁ s' : σ} {moments : List (Moment Platform σ)}
    (hopen : Passage follows (opening.find placement) s moments (some c₀) s₁)
    (htenure : Tenure follows stirs (c₀, s₁) stages (c, s')) :
    Mirrored placement.base (moments.map (·.exchange) ++ stages.flatMap Stage.history) stages c := by
  obtain ⟨hfound, hstanding⟩ := find_coherent hopen
  obtain ⟨hcoherent, -, hchanges⟩ := tenure_coherent htenure hfound hstanding
  exact ⟨hcoherent, hchanges, fun u c' hexec => hexec.recorded_after (ensures_release_coherent hcoherent)⟩

variable {m m' : Simulated} {initial : UInt8}

namespace Simulated

/-- Whatever else becomes of a machine, its controller stays where it is, and nobody else writes its output
register. -/
structure Untouched (m m' : Simulated) : Prop where
  present : m'.fdc.present = m.fdc.present
  base : m'.fdc.base = m.fdc.base
  output : m'.fdc.output = m.fdc.output

/-- Surroundings that stand any call, and where anything may become of the machine after each, but for its output
register. -/
def latching : Surroundings Platform Simulated where
  permits _ _ := True
  follows m call r m' := ∃ m₁, m.step call = (r, m₁) ∧ Untouched m₁ m'

theorem keepsTo_latching : machine.KeepsTo latching id := fun _ _ => ⟨_, rfl, rfl, rfl, rfl⟩

/-- The output register holds what was written to it last, or what it held before. -/
structure Latched (base : UInt16) (initial : UInt8) (m : Simulated) (h : History Platform) : Prop where
  present : Core.At base m.core
  output : m.fdc.output = (lastWritten (Port.digitalOutput base) h).getD initial

theorem Latched.untouched (hm : Latched base initial m h) (hsame : Untouched m m') : Latched base initial m' h :=
  ⟨⟨hsame.present.trans hm.present.present, hsame.base.trans hm.present.base_eq, hm.present.room⟩,
    hsame.output.trans hm.output⟩

theorem latched_step (call : Platform.Call) (hm : Latched base initial m h) :
    Latched base initial (m.step call).2 (h ++ [⟨call, (m.step call).1⟩]) := by
  have hkept : ∀ output, (m.step call).2.fixture = { m.fixture with output } →
      output = (lastWritten (Port.digitalOutput base) (h ++ [⟨call, (m.step call).1⟩])).getD initial →
      Latched base initial (m.step call).2 (h ++ [⟨call, (m.step call).1⟩]) := by
    intro output hfixture houtput
    unfold fixture at hfixture
    obtain ⟨hpresent, hbase, -, hnext⟩ := Fixture.mk.inj hfixture
    exact ⟨⟨hpresent.trans hm.present.present, hbase.trans hm.present.base_eq, hm.present.room⟩,
      hnext.trans houtput⟩
  cases call with
  | output port value =>
    have hwindow : m.window (Port.digitalOutput base) = some 2 := hm.present.window 2 (by decide)
    by_cases hport : port = Port.digitalOutput base
    · subst hport
      refine hkept value ((m.fixture_output _ value).trans (if_pos hwindow)) ?_
      simp
    · have hmissed : m.window port ≠ some 2 := by
        intro htwo
        have hlies : port = m.fdc.base + 2 := Core.window_eq_some htwo
        exact hport (hlies.trans (congrArg (· + 2) hm.present.base_eq))
      refine hkept m.fdc.output ((m.fixture_output port value).trans (if_neg hmissed)) ?_
      simpa [hport] using hm.output
  | _ =>
    refine hkept m.fdc.output (fixture_step nofun) ?_
    simpa using hm.output

theorem latched_passage {α : Type} {p : Routine α} {a : α} {moments : List (Moment Platform Simulated)}
    (hpassage : Passage latching.follows p m moments a m') (hm : Latched base initial m h) :
    Latched base initial m' (h ++ moments.map (·.exchange)) := by
  induction hpassage generalizing h with
  | done => simpa using hm
  | @call call _ _ _ _ _ _ _ hfollows _ ih =>
    obtain ⟨m₁, hstep, hsame⟩ := hfollows
    have hnext := latched_step call hm
    rw [hstep] at hnext
    simpa using ih (hnext.untouched hsame)

theorem Latched.eq_shadow (hm : Latched base initial m h) (hcoherent : Coherent base c h) :
    m.fdc.output = c.shadow.output.encode := by
  rw [hm.output, hcoherent.output]
  rfl

end Simulated

theorem latched_tenure {x z : Controller × Simulated} {stages : List (Stage Simulated)}
    (htenure : Tenure latching.follows Untouched x stages z) (hx : Latched base initial x.2 h) :
    Latched base initial z.2 (h ++ stages.flatMap Stage.history) := by
  induction htenure with
  | start => simpa using hx
  | stir _ hsame ih => exact ih.untouched hsame
  | ask request _ hpassage ih => simpa [Stage.history] using latched_passage hpassage ih

/-- At any point between two requests both registers were written last what the shadow says, and so they were after
a release; each request changes its own field of the shadow, if any. On a simulated machine the output register
holds what the shadow says. -/
theorem shadow_coherent (opening : Opening) (placement : Placement) :
    (∀ {σ : Type} {follows : σ → (c : Platform.Call) → Platform.Reply c → σ → Prop} {stirs : σ → σ → Prop}
      {s s₁ s' : σ} {c₀ c : Controller} {moments : List (Moment Platform σ)} {stages : List (Stage σ)},
      Passage follows (opening.find placement) s moments (some c₀) s₁ →
      Tenure follows stirs (c₀, s₁) stages (c, s') →
      Mirrored placement.base (moments.map (·.exchange) ++ stages.flatMap Stage.history) stages c) ∧
    ∀ {m m₁ m' : Simulated} {c₀ c : Controller} {moments : List (Moment Platform Simulated)}
      {stages : List (Stage Simulated)}, Core.At placement.base m.core →
      Passage latching.follows (opening.find placement) m moments (some c₀) m₁ →
      Tenure latching.follows Untouched (c₀, m₁) stages (c, m') →
      m'.fdc.output = c.shadow.output.encode ∧ ∀ {moments' : List (Moment Platform Simulated)} {c' m''},
        Passage latching.follows (Operation.release.run c) m' moments' ((), c') m'' →
          m''.fdc.output = c'.shadow.output.encode := by
  refine ⟨mirrored_of_tenure, ?_⟩
  intro m m₁ m' c₀ c moments stages hat hopen htenure
  have hmirrored := mirrored_of_tenure hopen htenure
  have hstart : Latched placement.base m.fdc.output m [] := ⟨hat, rfl⟩
  have hend := latched_tenure htenure (latched_passage hopen hstart)
  refine ⟨hend.eq_shadow hmirrored.coherent, ?_⟩
  intro moments' c' m'' hrelease
  exact (latched_passage hrelease hend).eq_shadow (hmirrored.released _ _ hrelease.execution).1

/-- A motor is started on a fresh machine, and somebody else leaves a result half read: a seek resets it first. -/
theorem shadow_coherent_reset : ∃ (m₁ m : Simulated) (c₀ c : Controller)
    (moments : List (Moment Platform Simulated)) (stages : List (Stage Simulated)),
    Core.At 0x3F0 ({} : Simulated).core ∧
      Passage latching.follows (Opening.discover.find ⟨0x3F0, some 6, some 2⟩) {} moments (some c₀) m₁ ∧
      Tenure latching.follows Untouched (c₀, m₁) stages (c, m) ∧
      Mirrored 0x3F0 (moments.map (·.exchange) ++ stages.flatMap Stage.history) stages c ∧
      m.fdc.output = c.shadow.output.encode ∧ m.fdc.output = 0x3C ∧ m.fdc.resets = 1 := by
  have hfacts : let found := (Opening.discover.find ⟨0x3F0, some 6, some 2⟩).run Simulated.machine {}
      (found.1.map fun c₀ =>
        let started := ((Request.setMotor .b true).respond.run c₀).run Simulated.machine found.2
        let asked := ((Request.execute (.seek 3)).respond.run started.1.2).run Simulated.machine
          started.2.abandonResult
        (asked.2.fdc.output, asked.2.fdc.resets)) = some (0x3C, 1) := by decide +kernel
  obtain ⟨moments, hopen⟩ := keepsTo_latching.passage (Opening.discover.find ⟨0x3F0, some 6, some 2⟩) {}
  generalize (Opening.discover.find ⟨0x3F0, some 6, some 2⟩).run Simulated.machine {} = found at hfacts hopen
  obtain ⟨found, m₁⟩ := found
  obtain ⟨c₀, hfound, hend⟩ := Option.map_eq_some_iff.mp hfacts
  replace hfound : found = some c₀ := hfound
  rw [hfound] at hopen
  obtain ⟨moments₁, hstart⟩ := keepsTo_latching.passage ((Request.setMotor .b true).respond.run c₀) m₁
  generalize ((Request.setMotor .b true).respond.run c₀).run Simulated.machine m₁ = started at hend hstart
  obtain ⟨⟨answer, c₁⟩, m₂⟩ := started
  obtain ⟨moments₂, hask⟩ := keepsTo_latching.passage ((Request.execute (.seek 3)).respond.run c₁) m₂.abandonResult
  dsimp only at hend
  generalize ((Request.execute (.seek 3)).respond.run c₁).run Simulated.machine _ = asked at hend hask
  obtain ⟨⟨answer', c⟩, m⟩ := asked
  have habandoned : Untouched m₂ m₂.abandonResult := ⟨rfl, rfl, rfl⟩
  have htenure := ((Tenure.start.ask _ hstart).stir habandoned).ask _ hask
  have hat : Core.At 0x3F0 ({} : Simulated).core := ⟨rfl, rfl, by decide⟩
  obtain ⟨hmirrored, hsimulated⟩ := shadow_coherent .discover ⟨0x3F0, some 6, some 2⟩
  obtain ⟨houtput, hresets⟩ := Prod.mk.inj hend
  exact ⟨m₁, m, c₀, c, moments, _, hat, hopen, htenure, hmirrored hopen htenure, (hsimulated hat hopen htenure).1,
    houtput, hresets⟩

end Diskette
