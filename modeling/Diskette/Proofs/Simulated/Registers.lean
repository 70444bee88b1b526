import Diskette.Proofs.Simulated.Reset
import Diskette.Proofs.Standing

/-!
What the driver does to the output register of a simulated controller, and to the data path along with
it, disturbs no command and nothing that is stored.
-/
namespace Diskette

open Simulated
open Diskette.Core (surroundings)

variable {c c' c₁ : Controller} {k k' k₁ : Core}

/-- On the DMA path there is a channel, and the gate is open. -/
def Routed (c : Controller) : Prop :=
  c.path = .channel → c.channel.isSome ∧ c.shadow.output.gate = true

/-- The output register has changed, or the data path, and nothing else. -/
structure Turned (c : Controller) (k : Core) (c' : Controller) (k' : Core) : Prop where
  output : ∃ output : DigitalOutput, output.resetAsserted = false ∧
    c'.shadow = { c.shadow with output } ∧ k' = k.withOutput output.encode
  specified : c'.specified = c.specified
  cylinder : c'.cylinder = c.cylinder
  channel : c'.channel = c.channel
  routed : Routed c → Routed c'

namespace Turned

theorem refl (h : Linked c k) : Turned c k c k := by
  refine ⟨⟨c.shadow.output, h.outOfReset, rfl, ?_⟩, rfl, rfl, rfl, id⟩
  rw [← h.output_eq]
  rfl

theorem trans (h : Turned c k c₁ k₁) (h' : Turned c₁ k₁ c' k') : Turned c k c' k' := by
  obtain ⟨output, -, hshadow, rfl⟩ := h.output
  obtain ⟨output', hreset, hshadow', rfl⟩ := h'.output
  refine ⟨⟨output', hreset, ?_, rfl⟩, h'.specified.trans h.specified,
    h'.cylinder.trans h.cylinder, h'.channel.trans h.channel, fun hc => h'.routed (h.routed hc)⟩
  rw [hshadow', hshadow]

/-- What the driver does with itself meanwhile counts for nothing. -/
theorem abides (h : Turned c k c₁ k') (hc : Abides c₁ c') (hcylinder : c'.cylinder = c₁.cylinder) :
    Turned c k c' k' := by
  obtain ⟨output, hreset, hshadow, rfl⟩ := h.output
  have hchannel : c'.channel = c₁.channel := Controller.channel_of_setting hc.setting
  have hpath : c'.path = c₁.path := Controller.path_of_setting hc.setting
  refine ⟨⟨output, hreset, hc.shadow.trans hshadow, rfl⟩, hc.specified.trans h.specified,
    hcylinder.trans h.cylinder, hchannel.trans h.channel, fun hrouted => ?_⟩
  unfold Routed
  rw [hchannel, hpath, hc.shadow]
  exact h.routed hrouted

theorem linked (h : Turned c k c' k') (hlinked : Linked c k) : Linked c' k' := by
  obtain ⟨output, hreset, hshadow, rfl⟩ := h.output
  have hbase : c'.base = c.base := by rw [Controller.base, hshadow, Controller.base]
  have houtput : c'.shadow.output = output := by rw [hshadow]
  refine ⟨hbase ▸ ⟨hlinked.present, hlinked.base_eq, hlinked.room⟩, ?_, ?_⟩
  · rw [houtput]
    rfl
  · rw [houtput]
    exact hreset

theorem kept (h : Turned c k c' k') : Kept k k' := by
  obtain ⟨output, -, -, rfl⟩ := h.output
  exact ⟨rfl, rfl, rfl, rfl⟩

theorem settled (h : Turned c k c' k') (hsettled : Settled c k) : Settled c' k' := by
  have hlinked := h.linked hsettled.toLinked
  obtain ⟨output, -, -, rfl⟩ := h.output
  exact ⟨hlinked, hsettled.whole, hsettled.command, hsettled.quiet,
    fun path hpath => hsettled.told path (h.specified ▸ hpath)⟩

theorem stage (h : Turned c k c' k') :
    k'.fdc.partialCommand = k.fdc.partialCommand ∧ k'.fdc.stage = k.fdc.stage := by
  obtain ⟨output, -, -, rfl⟩ := h.output
  exact ⟨rfl, rfl⟩

end Turned

/-- A settled controller, or one that visibly is in the midst of something. -/
structure Sound (c : Controller) (k : Core) : Prop where
  linked : Linked c k
  settled : k.fdc.partialCommand = [] → k.fdc.stage = .command → Settled c k

theorem Settled.sound (h : Settled c k) : Sound c k := ⟨h.toLinked, fun _ _ => h⟩

theorem Sound.turned (h : Sound c k) (hturned : Turned c k c' k') : Sound c' k' := by
  refine ⟨hturned.linked h.linked, fun hwhole hcommand => ?_⟩
  obtain ⟨hwhole', hcommand'⟩ := hturned.stage
  exact hturned.settled (h.settled (hwhole' ▸ hwhole) (hcommand' ▸ hcommand))

theorem ensures_shadowed_output {f : DigitalOutput → DigitalOutput} (h : Linked c k)
    (hout : (f c.shadow.output).resetAsserted = false) {Q : Unit → Controller → Core → Prop}
    (hQ : Q () { c with shadow := { c.shadow with output := f c.shadow.output } }
      (k.withOutput (f c.shadow.output).encode)) :
    Operation.Ensures surroundings (Operation.shadowed fun s => s.writeOutput (f s.output)) Q c k := by
  rw [Operation.ensures_shadowed]
  exact ensures_writeShadow h hout hQ

theorem turns_setMotor (h : Linked c k) (drive : Drive) (on : Bool) :
    Operation.Ensures surroundings (Operation.setMotor drive on)
      (fun _ c' k' => Turned c k c' k' ∧ c'.drive = c.drive) c k := by
  refine ensures_shadowed_output (f := fun output => output.setMotor drive on) h h.outOfReset ?_
  exact ⟨⟨⟨c.shadow.output.setMotor drive on, h.outOfReset, rfl, rfl⟩, rfl, rfl, rfl, id⟩, rfl⟩

theorem turns_selectDrive (h : Linked c k) (drive : Drive) :
    Operation.Ensures surroundings (Operation.selectDrive drive)
      (fun _ c' k' => Turned c k c' k' ∧ c'.drive = drive) c k := by
  refine ensures_shadowed_output (f := fun output => { output with drive }) h h.outOfReset ?_
  exact ⟨⟨⟨{ c.shadow.output with drive }, h.outOfReset, rfl, rfl⟩, rfl, rfl, rfl, id⟩, rfl⟩

theorem turns_readyDrive (h : Linked c k) (command : Command) (drive : Drive) :
    Operation.Ensures surroundings (Operation.readyDrive command drive)
      (fun _ c' k' => Turned c k c' k' ∧ c'.drive = c.drive) c k := by
  unfold Operation.readyDrive
  split
  · simp only [Operation.startMotor, Operation.ensures_bind, Operation.ensures_get,
      Operation.ensures_ite, Operation.ensures_pure, Operation.ensures_log, Operation.ensures_lift]
    split
    · exact ⟨.refl h, trivial⟩
    · have hlog : (Platform.log c.base (.spinningUp drive)).Only (Core.Incidental k.fdc.base) :=
        .perform (by trivial)
      apply (Core.ensures_incidental hlog).mono
      rintro _ k rfl
      apply (turns_setMotor h drive true).mono
      intro _ c' k' hturned
      have hdelay : (Platform.delay Operation.startTime).Only (Core.Incidental k'.fdc.base) :=
        .perform (by trivial)
      exact (Core.ensures_incidental hdelay).mono fun _ _ hk => hk ▸ hturned
  · exact ⟨.refl h, rfl⟩

theorem ensures_maskIfHooked_simulated :
    Operation.Ensures surroundings Operation.maskIfHooked (fun _ c' k' => c' = c ∧ k' = k) c k := by
  simp only [Operation.maskIfHooked, Operation.ensures_bind, Operation.ensures_get]
  split
  · rename_i line _ _
    have hmask : (Platform.maskLine line.irq).Only (Core.Incidental k.fdc.base) :=
      .perform (by trivial)
    rw [Operation.ensures_lift]
    exact (Core.ensures_incidental hmask).mono fun _ _ hk => ⟨rfl, hk⟩
  · exact ⟨rfl, rfl⟩

theorem ensures_closeGate_simulated (h : Linked c k) :
    Operation.Ensures surroundings Operation.closeGate (fun _ c' k' =>
      c' = { c with shadow := { c.shadow with output := { c.shadow.output with gate := false } } } ∧
      k' = k.withOutput { c.shadow.output with gate := false }.encode) c k := by
  simp only [Operation.closeGate, Operation.ensures_bind, Operation.ensures_get,
    Operation.ensures_ite, Operation.ensures_pure]
  split
  · exact ensures_shadowed_output (f := fun output => { output with gate := false }) h h.outOfReset
      ⟨rfl, rfl⟩
  · rename_i hgate
    have houtput := h.output_eq
    obtain ⟨⟨base, ⟨motors, gate, resetAsserted, drive⟩, rate⟩⟩ := c
    obtain rfl : gate = false := by simpa using hgate
    refine ⟨rfl, ?_⟩
    rw [← houtput]
    rfl

theorem ensures_unbind_simulated : Operation.Ensures surroundings Operation.unbind
    (fun _ c' k' => (c' = c ∨ c' = { c with hooked := false, prior := none }) ∧ k' = k) c k := by
  simp only [Operation.unbind, Operation.ensures_bind, Operation.ensures_get]
  split
  · rename_i line _ _
    have hrestore : (Platform.restore line.irq c.prior).Ensures surroundings
        (fun _ k' => k' = k) k := Core.ensures_incidental (.perform (by trivial))
    rw [Operation.ensures_bind, Operation.ensures_takePrior, Operation.ensures_bind, Operation.ensures_lift]
    apply (Core.ensures_uninterrupted hrestore).mono
    rintro _ _ rfl
    exact ⟨.inr rfl, rfl⟩
  · exact ⟨.inl rfl, rfl⟩

theorem turns_disableDma (h : Linked c k) :
    Operation.Ensures surroundings Operation.disableDma
      (fun _ c' k' => Turned c k c' k' ∧ c'.drive = c.drive ∧ c'.path = .port) c k := by
  unfold Operation.disableDma
  refine Operation.ensures_bind.mpr (ensures_maskIfHooked_simulated.mono ?_)
  rintro _ c k ⟨rfl, rfl⟩
  refine Operation.ensures_bind.mpr ((ensures_closeGate_simulated h).mono ?_)
  rintro _ c₁ k₁ ⟨rfl, rfl⟩
  refine Operation.ensures_bind.mpr (ensures_unbind_simulated.mono ?_)
  rintro _ c₂ k₂ ⟨hc₂, rfl⟩
  have hturned : Turned c k { c₂ with path := .port }
      (k.withOutput { c.shadow.output with gate := false }.encode) ∧
      Controller.drive { c₂ with path := .port } = c.drive := by
    have houtput : ∃ output : DigitalOutput, output.resetAsserted = false ∧
        { c.shadow with output := { c.shadow.output with gate := false } } =
          { c.shadow with output } ∧ k.withOutput { c.shadow.output with gate := false }.encode =
          k.withOutput output.encode :=
      ⟨{ c.shadow.output with gate := false }, h.outOfReset, rfl, rfl⟩
    rcases hc₂ with rfl | rfl <;> exact ⟨⟨houtput, rfl, rfl, rfl, fun _ => nofun⟩, rfl⟩
  have hlog : (Platform.log c₂.base .polled).Only (Core.Incidental
      (k.withOutput { c.shadow.output with gate := false }.encode).fdc.base) :=
    .perform (by trivial)
  simp only [Operation.logPolled, Operation.ensures_bind, Operation.ensures_get,
    Operation.ensures_ite, Operation.ensures_log, Operation.ensures_pure,
    Operation.ensures_modify]
  split
  · apply (Core.ensures_incidental hlog).mono
    rintro _ _ rfl
    exact ⟨hturned.1, hturned.2, trivial⟩
  · exact ⟨hturned.1, hturned.2, trivial⟩

theorem turns_noticeStorm (h : Linked c k) :
    Operation.Ensures surroundings Operation.noticeStorm
      (fun _ c' k' => Turned c k c' k' ∧ c'.drive = c.drive) c k := by
  simp only [Operation.noticeStorm, Operation.ensures_bind, Operation.ensures_get]
  split
  · exact ⟨.refl h, rfl⟩
  · rename_i line hline
    have hdegraded : line.degraded.Only (Core.Incidental k.fdc.base) := .perform (by trivial)
    rw [Operation.ensures_bind, Operation.ensures_lift]
    apply (Core.ensures_incidental hdegraded).mono
    rintro stormy k rfl
    rw [Operation.ensures_ite]
    split
    · simp only [Operation.abandonLine, Operation.ensures_bind, Operation.ensures_get,
        Operation.ensures_ite, Operation.ensures_log, Operation.ensures_pure]
      split
      · have hlog : (Platform.log c.base (.storm line.irq)).Only (Core.Incidental k.fdc.base) :=
          .perform (by trivial)
        apply (Core.ensures_incidental hlog).mono
        rintro _ _ rfl
        exact (turns_disableDma h).mono fun _ _ _ hturned => ⟨hturned.1, hturned.2.1⟩
      · exact ⟨.refl h, trivial⟩
    · exact ⟨.refl h, rfl⟩

theorem turns_hookLine (h : Linked c k) (hchannel : c.channel.isSome) (line : Line) :
    Operation.Ensures surroundings (Operation.hookLine line)
      (fun _ c' k' => Turned c k c' k' ∧ c'.drive = c.drive) c k := by
  simp only [Operation.hookLine, Operation.ensures_bind, Operation.ensures_lift,
    Operation.ensures_modify, Operation.ensures_log]
  have hmask : (Platform.maskLine line.irq).Only (Core.Incidental k.fdc.base) :=
    .perform (by trivial)
  apply (Core.ensures_incidental hmask).mono
  rintro _ k rfl
  refine ensures_shadowed_output (f := fun output => { output with gate := true }) h h.outOfReset ?_
  generalize hk₁ : k.withOutput { c.shadow.output with gate := true }.encode = k₁
  have hturned : ∀ prior, Turned c k
      { c with
        shadow := { c.shadow with output := { c.shadow.output with gate := true } }
        hooked := true, prior, path := .channel } k₁ :=
    fun prior => ⟨⟨{ c.shadow.output with gate := true }, h.outOfReset, rfl, hk₁.symm⟩, rfl, rfl, rfl,
      fun _ _ => ⟨hchannel, rfl⟩⟩
  have hbind : (Platform.bind line.irq (.counting line)).Ensures surroundings
      (fun _ k' => k' = k₁) k₁ := Core.ensures_incidental (.perform (by trivial))
  apply (Core.ensures_uninterrupted hbind).mono
  rintro prior k₂ hk₂
  have hacknowledge : line.acknowledge.Only (Core.Incidental k₂.fdc.base) := .perform (by trivial)
  apply (Core.ensures_incidental hacknowledge).mono
  rintro _ k₂ rfl
  have hunmask : (Platform.unmaskLine line.irq).Only (Core.Incidental k₂.fdc.base) :=
    .perform (by trivial)
  apply (Core.ensures_incidental hunmask).mono
  rintro _ k₂ rfl
  have hlog : (Platform.log c.base (.interruptDriven line.irq)).Only
      (Core.Incidental k₂.fdc.base) := .perform (by trivial)
  apply (Core.ensures_incidental hlog).mono
  rintro _ _ rfl
  exact ⟨hk₂ ▸ hturned prior, rfl⟩

/-- Whether the DMA path is taken or refused, nothing else changes. -/
theorem turns_enableDma (h : Linked c k) :
    Operation.Ensures surroundings Operation.enableDma.run
      (fun _ c' k' => Turned c k c' k' ∧ c'.drive = c.drive) c k := by
  have hsame : Turned c k c k := .refl h
  simp only [Attempt.ensures_run, Operation.enableDma, Attempt.ensures_bind, Attempt.ensures_get,
    Attempt.ensures_ite, Attempt.ensures_throw]
  split
  · exact ⟨hsame, trivial⟩
  · rename_i hchannel
    have hchannel : c.channel.isSome := by simpa [← Option.ne_none_iff_isSome] using hchannel
    split
    · exact ⟨hsame, rfl⟩
    · rename_i line hline
      simp only [Attempt.ensures_bind, Attempt.ensures_ite, Attempt.ensures_throw,
        Attempt.ensures_pure, Attempt.ensures_lift, Attempt.ensures_operation]
      have hdegraded : line.degraded.Only (Core.Incidental k.fdc.base) := .perform (by trivial)
      apply (Core.ensures_incidental hdegraded).mono
      rintro stormy k rfl
      split
      · exact ⟨hsame, trivial⟩
      split
      · exact ⟨hsame, trivial⟩
      · exact turns_hookLine h hchannel line

end Diskette
