import Diskette.Proofs.Agreement.Fifo
import Diskette.Proofs.Conduct.DataPath
import Diskette.Proofs.Wire.Operations

/-!
Operations, and what they leave of the agreement between the driver and the controller on the data path. What the
driver takes the controller to have been told is what it was told, but for the time from a failure to the end of
the reset that follows it.
-/
namespace Diskette

/-- All that the choice of a data path depends on. -/
structure Route where
  path : DataPath
  channel : Option UInt8
  specified : Option DataPath

def Controller.route (c : Controller) : Route := ⟨c.path, c.channel, c.specified⟩

/-- The DMA path is not taken without a channel. -/
def Route.Sound (r : Route) : Prop := r.path = .channel → r.channel.isSome

/-- What the controller is taken to have been told is what it was told. -/
structure Route.Agreed (r : Route) (nonDma : Option Bool) : Prop where
  sound : r.Sound
  told : ∀ path ∈ r.specified, nonDma = some (path == .port)

/-- A command has told the controller something that the driver has not taken in yet. -/
def Route.Hinted (tells : Option DataPath) (r : Route) (nonDma : Option Bool) : Prop :=
  Route.Agreed { r with specified := tells.or r.specified } nonDma

theorem Route.Agreed.hinted {r : Route} {nonDma : Option Bool} (h : r.Agreed nonDma) (tells : Option DataPath) :
    r.Hinted tells ((tells.map (· == .port)).or nonDma) := by
  cases tells with
  | none => exact h
  | some told =>
    refine ⟨h.sound, ?_⟩
    rintro _ ⟨⟩
    rfl

namespace Receiver

open Simulated (Order)

variable {base : UInt16} {α : Type} {c c' : Controller} {x y : Receiver} {R S : Route → Option Bool → Prop}

/-- A controller at the base that is out of reset, with no payload under way. -/
structure Poised (base : UInt16) (R : Route → Option Bool → Prop) (c : Controller) (x : Receiver) : Prop where
  base_eq : c.base = base
  outOfReset : c.shadow.output.resetAsserted = false
  due : x.wire.due = 0
  holds : R c.route x.nonDma

/-- A controller at the base after a failure. -/
structure Halted (base : UInt16) (c : Controller) : Prop where
  base_eq : c.base = base
  sound : c.route.Sound

/-- A controller that agrees with the driver. -/
abbrev Agreeing (base : UInt16) (c : Controller) (x : Receiver) : Prop := Poised base Route.Agreed c x

theorem Poised.halted (h : Poised base R c x) (hsound : c.route.Sound) : Halted base c := ⟨h.base_eq, hsound⟩

theorem Poised.mono (h : Poised base R c x) (hR : ∀ r nonDma, R r nonDma → S r nonDma) : Poised base S c x :=
  ⟨h.base_eq, h.outOfReset, h.due, hR _ _ h.holds⟩

theorem Poised.aside {p : Routine α} (hp : p.Only (Aside base)) (h : Poised base R c x) :
    p.Ensures (heeded base) (fun _ => Poised base R c) x :=
  (ensures_aside hp h.due).mono fun _ _ hy => ⟨h.base_eq, h.outOfReset, hy.1, by rw [hy.2]; exact h.holds⟩

theorem Poised.of_eq (h : Poised base R c x) (hroute : c'.route = c.route) (hshadow : c'.shadow = c.shadow) :
    Poised base R c' x := by
  refine ⟨?_, by rw [hshadow]; exact h.outOfReset, h.due, by rw [hroute]; exact h.holds⟩
  have hbase : c'.shadow.base = c.shadow.base := by rw [hshadow]
  exact hbase.trans h.base_eq

theorem calm_poised : Calm (heeded base) (Poised base R) := by
  refine calm_of_footing ?_ ?_
  · intro c c' x hc h
    have hshadow : c'.footing.shadow = c.footing.shadow := by rw [hc]
    have hroute : c'.footing.route = c.footing.route := by rw [hc]
    exact h.of_eq hroute hshadow
  · intro c x call hcall h
    refine ⟨permits_of_aside (aside_of_plain hcall), ?_⟩
    rintro r _ rfl
    refine ⟨h.base_eq, h.outOfReset, due_aside (aside_of_plain hcall) h.due, ?_⟩
    have hkept : ((listener base).hear x ⟨call, r⟩).nonDma = x.nonDma := nonDma_aside (aside_of_plain hcall)
    rw [hkept]
    exact h.holds

theorem calm_halted : Calm (heeded base) fun c _ => Halted base c := by
  refine calm_of_footing ?_ fun hcall h => ⟨permits_of_aside (aside_of_plain hcall), fun _ _ _ => h⟩
  intro c c' x hc h
  have hbase : c'.footing.base = c.footing.base := by rw [hc]
  have hroute : c'.footing.route = c.footing.route := by rw [hc]
  exact ⟨hbase.trans h.base_eq, hroute ▸ h.sound⟩

theorem poised_lift {p : Routine α} (hp : p.Only (Aside base)) :
    Operation.Keeps (heeded base) (Poised base R) (liftM p : Operation α) := .lift fun _ _ h => h.aside hp

theorem poised_modify {f : Controller → Controller} (hroute : ∀ c, (f c).route = c.route)
    (hshadow : ∀ c, (f c).shadow = c.shadow) : Operation.Keeps (heeded base) (Poised base R) (modify f) :=
  .modify fun c _ h => h.of_eq (hroute c) (hshadow c)

theorem aside_digitalOutput {output : DigitalOutput} (hbase : c.base = base) (houtput : output.resetAsserted = false) :
    (Platform.output (Port.digitalOutput c.base) output.encode).Only (Aside base) := by
  rw [hbase]
  exact .perform ⟨Wire.digitalOutput_ne_data, by simp [resets, houtput]⟩

/-- A write of the output register that takes the controller out of reset, or leaves it there. -/
theorem poised_output {output : DigitalOutput} (houtput : output.resetAsserted = false) (hbase : c.base = base)
    (hdue : x.wire.due = 0) (hR : R c.route x.nonDma) :
    (c.shadow.writeOutput output).Ensures (heeded base) (fun shadow => Poised base R { c with shadow }) x := by
  refine Program.ensures_bind.mpr ((ensures_aside (aside_digitalOutput hbase houtput) hdue).mono ?_)
  rintro _ y ⟨hdue', hnonDma⟩
  exact ⟨hbase, houtput, hdue', by rw [hnonDma]; exact hR⟩

theorem poised_writeOutput {f : Shadow → DigitalOutput}
    (hf : ∀ s, s.output.resetAsserted = false → (f s).resetAsserted = false) :
    Operation.Keeps (heeded base) (Poised base R) (Operation.shadowed fun s => s.writeOutput (f s)) := by
  intro c x h
  rw [Operation.ensures_shadowed]
  exact poised_output (hf c.shadow h.outOfReset) h.base_eq h.due h.holds

theorem aside_configControl {rate : DataRate} (hbase : c.base = base) :
    (Platform.output (Port.configControl c.base) rate.encode).Only (Aside base) := by
  rw [hbase]
  exact .perform ⟨Wire.configControl_ne_data, by simp [resets, Wire.configControl_ne_digitalOutput]⟩

theorem poised_setRate (rate : DataRate) :
    Operation.Keeps (heeded base) (Poised base R) (Operation.setRate rate) := by
  intro c x h
  rw [Operation.setRate, Operation.ensures_shadowed]
  refine Program.ensures_bind.mpr ((h.aside (aside_configControl h.base_eq)).mono fun _ y hy => ?_)
  exact ⟨hy.base_eq, hy.outOfReset, hy.due, hy.holds⟩

theorem poised_resync (h : Poised base R c x) :
    c.shadow.resync.Ensures (heeded base) (fun _ => Poised base R c) x :=
  Program.ensures_bind.mpr ((h.aside (aside_digitalOutput h.base_eq h.outOfReset)).mono fun _ _ hy =>
    hy.aside (aside_configControl hy.base_eq))

theorem leavable_agreeing : Leavable (heeded base) (Agreeing base) where
  stance := calm_poised.stance
  givesUp := by
    intro c x call hcall h
    have haside : Aside base call := by cases call <;> first | exact hcall.elim | trivial
    have hrun : (Program.call call .done).Ensures (heeded base) (fun _ => Agreeing base c) x :=
      h.aside (.perform haside)
    exact hrun
  writeOutput := poised_writeOutput
  takePrior h := h.of_eq rfl rfl
  unhook h := h.of_eq rfl rfl
  toPort h := ⟨h.base_eq, h.outOfReset, h.due, nofun, h.holds.told⟩

theorem agreeing_hookLine (l : Line) (hchannel : c.channel.isSome) (h : Agreeing base c x) :
    Operation.Ensures (heeded base) (Operation.hookLine l) (fun _ => Agreeing base) c x := by
  have hkeeps : Operation.Keeps (heeded base) (Poised base fun r nonDma => r.channel.isSome ∧ r.Agreed nonDma)
      (Operation.hookLine l) := by
    refine .bind (poised_lift (.perform (by trivial))) fun _ => ?_
    refine .bind (poised_writeOutput (f := fun s => { s.output with gate := true }) fun _ => id) fun _ => ?_
    refine .bind (poised_lift (Platform.only_uninterrupted (by trivial) (by intro; trivial)
      (.perform (by trivial)))) fun _ => ?_
    refine .bind (poised_modify (by exact fun _ => rfl) (by exact fun _ => rfl)) fun _ => ?_
    refine .bind (poised_lift (.perform (by trivial))) fun _ => ?_
    refine .bind (poised_lift (.perform (by trivial))) fun _ => ?_
    refine .bind (.modify fun c x h => ?_) fun _ => calm_poised.log _
    obtain ⟨hsome, hagreed⟩ := h.holds
    exact ⟨h.base_eq, h.outOfReset, h.due, hsome, fun _ => hsome, hagreed.told⟩
  refine (hkeeps c x ⟨h.base_eq, h.outOfReset, h.due, hchannel, h.holds⟩).mono ?_
  exact fun _ _ _ hend => hend.mono fun _ _ => And.right

theorem agreeing_enableDma : Operation.Keeps (heeded base) (Agreeing base) Operation.enableDma.run :=
  .enableDma fun _ _ l h _ hchannel => (h.aside (.perform (by trivial))).mono fun _ _ hy =>
    ⟨hy, fun _ _ => agreeing_hookLine l hchannel hy⟩

theorem poised_transact (command : Command) (n : ResultLength) (hvalid : command.validate = .ok ())
    (hdata : command.transfer? = none) (h : Poised base R c x) :
    (Fifo.transact c.base (command.bytes c.drive c.recording) n).Ensures (heeded base) (fun r y =>
      y.wire.due = 0 ∧ ∀ result, r = .ok result → y.nonDma = (command.tells.map (· == .port)).or x.nonDma) x := by
  have hpayload : (Order.ofBytes (command.bytes c.drive c.recording)).payload = 0 := by
    rw [Wire.payload_bytes hvalid, hdata]
  rw [h.base_eq, ← command.nonDma_bytes c.drive c.recording]
  exact ensures_transact n (Wire.framed_bytes _ _ _) hpayload (Command.not_carriesData hdata _ _) h.due

/-- A path that is specified is agreed on, and a failure to specify it leaves the controller as it is known. -/
theorem ensures_specify (path : DataPath) (hsound : c.route.Sound) (h : Poised base R c x) :
    Attempt.Ensures (heeded base) (Operation.specify path)
      (fun _ => Poised base fun r nonDma => r = { c.route with specified := some path } ∧ r.Agreed nonDma)
      (fun _ => Poised base fun r _ => r = c.route) c x := by
  have hvalid : (Command.standardSpecify path).validate = .ok () := by cases path <;> rfl
  simp only [Operation.specify, Attempt.ensures_bind, Attempt.ensures_get, Attempt.ensures_of]
  refine (poised_transact _ (.exactly 0) hvalid rfl h).mono ?_
  rintro (cause | result) y ⟨hdue, htold⟩
  · exact ⟨h.base_eq, h.outOfReset, hdue, rfl⟩
  · refine ⟨h.base_eq, h.outOfReset, hdue, rfl, hsound, ?_⟩
    rintro _ ⟨⟩
    exact htold result rfl

variable {P : Route → Prop}

theorem poised_drain (count : Nat) :
    Operation.Keeps (heeded base) (Poised base fun r _ => P r) (Operation.drain count) := by
  induction count with
  | zero => exact .pure
  | succ count ih =>
    intro c x h
    simp only [Operation.drain, Operation.ensures_bind, Operation.ensures_get, Operation.ensures_lift]
    refine (poised_transact .senseInterrupt _ rfl rfl h).mono ?_
    rintro (cause | result) y ⟨hdue, -⟩
    · exact ⟨h.base_eq, h.outOfReset, hdue, h.holds⟩
    · have hy : Poised base (fun r _ => P r) c y := ⟨h.base_eq, h.outOfReset, hdue, h.holds⟩
      dsimp only
      rw [Operation.ensures_ite]
      split
      · exact hy
      · exact Operation.Keeps.bind (calm_poised.log _) (fun _ => ih) c y hy

/-- After a reset the path is agreed on, or known not to be. -/
theorem agreeing_respecify (h : Poised base (fun r _ => r.Sound ∧ r.specified = none) c x) :
    Operation.Ensures (heeded base) Operation.respecify (fun _ => Agreeing base) c x := by
  obtain ⟨hsound, hnone⟩ := h.holds
  simp only [Operation.respecify, Operation.ensures_bind, Operation.ensures_get, Attempt.ensures_run]
  refine (ensures_specify c.path hsound h).mono ?_ ?_
  · exact fun _ _ _ h' => h'.mono fun _ _ => And.right
  · intro cause c' y h'
    have hagreeing : Agreeing base c' y := by
      refine h'.mono fun r nonDma hr => ?_
      subst hr
      refine ⟨hsound, fun path hpath => ?_⟩
      have hsome : c.route.specified = some path := hpath
      cases hnone.symm.trans hsome
    exact calm_poised.log _ c' y hagreeing

/-- To pulse the reset line drops what a failed command has left due. -/
theorem poised_pulseReset (h : Halted base c) :
    Operation.Ensures (heeded base) Operation.pulseReset (fun _ => Poised base fun r _ => r.Sound) c x := by
  have hbase : c.shadow.base = base := h.base_eq
  have houtput : Port.digitalOutput base ≠ Port.data base := Wire.digitalOutput_ne_data
  simp only [Operation.pulseReset, Operation.ensures_bind, Operation.ensures_shadowed, Operation.ensures_lift]
  refine ⟨fun hport => absurd (hbase ▸ hport) houtput, ?_⟩
  rintro - y rfl
  have hdue : ((listener base).hear x ⟨.output (Port.digitalOutput c.shadow.base)
      { c.shadow.output with resetAsserted := true }.encode, ()⟩).wire.due = 0 := by
    simp [listener, wire_hear, Wire.hear, hbase, houtput]
  generalize (listener base).hear x _ = y at hdue
  refine ⟨trivial, ?_⟩
  rintro - z rfl
  obtain ⟨c', hc'⟩ : ∃ c', c' = { c with shadow := { c.shadow with
      output := { c.shadow.output with resetAsserted := true } } } := ⟨_, rfl⟩
  have hrelease : (c'.shadow.setReset false).Ensures (heeded base)
      (fun shadow => Poised base (fun r _ => r.Sound) { c' with shadow })
      ((listener base).hear y ⟨.delay Operation.resetHold, ()⟩) := by
    refine poised_output rfl ?_ hdue ?_
    · rw [hc']
      exact hbase
    · rw [hc']
      exact h.sound
  rw [hc'] at hrelease
  exact hrelease

/-- A reset makes up for a failed command, and whatever the controller was told before. -/
theorem agreeing_reset (h : Halted base c) :
    Operation.Ensures (heeded base) Operation.reset (fun _ => Agreeing base) c x := by
  refine Operation.ensures_bind.mpr ((calm_halted.log _ c x h).mono fun _ c₁ x₁ h₁ => ?_)
  refine Operation.ensures_bind.mpr ((poised_pulseReset h₁).mono fun _ c₂ x₂ h₂ => ?_)
  refine Operation.ensures_bind.mpr ((calm_poised.awaitRestart c₂ x₂ h₂).mono fun _ c₃ x₃ h₃ => ?_)
  refine Operation.ensures_bind.mpr ((calm_poised.mainStatus c₃ x₃ h₃).mono fun _ c₄ x₄ h₄ => ?_)
  rw [Operation.ensures_bind, Operation.ensures_get, Operation.ensures_bind, Operation.ensures_lift]
  refine (poised_resync h₄).mono fun _ x₅ h₅ => ?_
  refine Operation.ensures_bind.mpr ((poised_drain 4 c₄ x₅ h₅).mono fun _ c₆ x₆ h₆ => ?_)
  refine Operation.ensures_bind.mpr ((calm_poised.acknowledgeLine c₆ x₆ h₆).mono fun _ c₇ x₇ h₇ => ?_)
  rw [Operation.ensures_bind, Operation.ensures_modify]
  have h₈ : Poised base (fun r _ => r.Sound ∧ r.specified = none)
      { c₇ with expectation := .idle, specified := none } x₇ := ⟨h₇.base_eq, h₇.outOfReset, h₇.due, h₇.holds, rfl⟩
  exact Operation.ensures_bind.mpr ((agreeing_respecify h₈).mono fun _ => calm_poised.setPhase _)

theorem keeps_reset : Operation.Keeps (heeded base) (Agreeing base) Operation.reset :=
  fun _ _ h => agreeing_reset (h.halted h.holds.sound)

end Receiver
end Diskette
