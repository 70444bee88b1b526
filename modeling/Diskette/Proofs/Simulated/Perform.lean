import Diskette.Proofs.Simulated.Commands
import Diskette.Proofs.Simulated.Registers

/-!
Whole commands on a simulated controller that no fault hinders, from the look for a storm before it to
the one after it.
-/
namespace Diskette

open Simulated
open Diskette.Core (surroundings)

variable {c c' c₁ : Controller} {k k' k₁ : Core} {command : Command}

/-- The channel, the drive and a route for the payload are kept. -/
structure Carried (c c' : Controller) : Prop where
  channel : c'.channel = c.channel
  drive : c'.drive = c.drive
  routed : Routed c → Routed c'

theorem Carried.trans (h : Carried c c₁) (h' : Carried c₁ c') : Carried c c' :=
  ⟨h'.channel.trans h.channel, h'.drive.trans h.drive, fun hc => h'.routed (h.routed hc)⟩

theorem carried_of_setting (h : c'.setting = c.setting) : Carried c c' := by
  have hchannel := Controller.channel_of_setting h
  have hshadow := Controller.shadow_of_setting h
  refine ⟨hchannel, ?_, fun hrouted => ?_⟩
  · unfold Controller.drive
    rw [hshadow]
  · unfold Routed
    rw [hchannel, hshadow, Controller.path_of_setting h]
    exact hrouted

theorem Turned.carried (h : Turned c k c' k') (hdrive : c'.drive = c.drive) : Carried c c' :=
  ⟨h.channel, hdrive, h.routed⟩

theorem idle_of_status (hlimit : k.faults.commandLimit = none) (hready : k.status.canWrite = true)
    (hbusy : k.status.busy = false) : k.fdc.partialCommand = [] ∧ k.fdc.stage = .command := by
  unfold Core.status Fdc.status at hready hbusy
  split at hready
  · exact absurd hready (by decide)
  · rename_i hreset
    rw [if_neg hreset] at hbusy
    cases hstage : k.fdc.stage with
    | command =>
      rw [hstage, hlimit] at hbusy
      refine ⟨?_, rfl⟩
      cases hpartial : k.fdc.partialCommand with
      | nil => rfl
      | cons b bytes =>
        rw [hpartial] at hbusy
        exact absurd hbusy (by simp +decide)
    | reading rest gone extent =>
      rw [hstage] at hready
      dsimp only at hready
      split at hready <;> exact absurd hready (by decide)
    | writing taken extent =>
      rw [hstage] at hbusy
      dsimp only at hbusy
      split at hbusy <;> exact absurd hbusy (by decide)
    | result =>
      rw [hstage] at hready
      dsimp only at hready
      split at hready <;> exact absurd hready (by decide)
    | stuck =>
      rw [hstage] at hready
      dsimp only at hready
      exact absurd hready (by decide)

theorem ensures_makeReceptive (h : Sound c k) (hf : k.faults.Harmless) :
    Operation.Ensures surroundings Operation.makeReceptive
      (fun _ c' k' => c'.setting = c.setting ∧ Settled c' k' ∧ Kept k k') c k := by
  have hlimit : k.faults.commandLimit ≠ some 0 := by simp [hf.commandLimit]
  simp only [Operation.makeReceptive, Operation.mainStatus, Operation.ensures_bind,
    Operation.ensures_get, Operation.ensures_lift, Operation.ensures_ite, Operation.ensures_log,
    Operation.ensures_pure]
  apply (Core.ensures_readStatus h.linked.toAt).mono
  rintro _ k ⟨rfl, rfl⟩
  split
  · have hlog : (Platform.log c.base (.notAccepting k.status)).Only (Core.Incidental k.fdc.base) :=
      .perform (by trivial)
    apply (Core.ensures_incidental hlog).mono
    rintro _ k rfl
    apply (ensures_reset_simulated h.linked.toAt h.linked.outOfReset hlimit).mono
    intro _ c' k' hrevived
    exact ⟨hrevived.setting, hrevived.harmless hf, hrevived.kept⟩
  · rename_i hready
    simp only [Bool.or_eq_true, Bool.not_eq_true', not_or, Bool.not_eq_false, Bool.not_eq_true]
      at hready
    obtain ⟨hwhole, hcommand⟩ :=
      idle_of_status hf.commandLimit hready.1 hready.2
    exact ⟨trivial, h.settled hwhole hcommand, .refl k⟩

abbrev Delivers (d : Delivery Report) (Q : Report → List UInt8 → Controller → Core → Prop)
    (c : Controller) (k : Core) : Prop :=
  Delivery.Ensures surroundings d Q (fun _ _ _ _ => False) [] c k

variable {bytes : List UInt8} {t : Option Transfer}
  {Q : Report → List UInt8 → Controller → Core → Prop}
  {F : Failure → List UInt8 → Controller → Core → Prop}

/-- A command is under way once the drive and the controller are ready. -/
theorem ensures_undertake_linked (h : Linked c k)
    (hproceed : ∀ c₁ k₁, Turned c k c₁ k₁ → c₁.drive = c.drive →
      Operation.Ensures surroundings Operation.makeReceptive (fun _ => Delivery.Ensures surroundings
        (Operation.proceed command bytes t c.drive) Q F []) c₁ k₁) :
    Operation.Ensures surroundings (Operation.undertake command bytes t) (fun pass c' k' =>
      match pass.outcome with
      | .ok report => Q report pass.delivered c' k'
      | .error cause => F cause pass.delivered c' k') c k := by
  unfold Operation.undertake
  refine Operation.ensures_bind.mpr ((turns_noticeStorm h).mono ?_)
  rintro early c₁ k₁ ⟨hturned, hdrive⟩
  rw [Operation.ensures_bind, Operation.ensures_setPhase, Operation.ensures_bind,
    Operation.ensures_get, Operation.ensures_bind, Operation.ensures_log]
  have hlog : ∀ event, (Platform.log (Controller.base { c₁ with phase := .ready }) event).Only
      (Core.Incidental k₁.fdc.base) := fun _ => .perform (by trivial)
  apply (Core.ensures_incidental (hlog _)).mono
  rintro _ k₁ rfl
  have hready : Turned c k { c₁ with phase := .ready } k₁ := hturned.abides (.phase c₁ .ready) rfl
  rw [Operation.ensures_bind, Delivery.ensures_run]
  have hcarry : Delivery.Ensures surroundings (Operation.carryOut command bytes t) Q F []
      { c₁ with phase := .ready } k₁ := by
    unfold Operation.carryOut
    rw [Delivery.ensures_bind, Delivery.ensures_getThe, Delivery.ensures_bind,
      Delivery.ensures_operation]
    apply (turns_readyDrive (hready.linked h) command _).mono
    rintro _ c₂ k₂ ⟨hspun, hdrive₂⟩
    rw [Delivery.ensures_bind, Delivery.ensures_operation]
    have hsame : Controller.drive { c₁ with phase := .ready } = c.drive := hdrive
    rw [hsame]
    exact hproceed c₂ k₂ (hready.trans hspun) (hdrive₂.trans hsame)
  refine hcarry.mono ?_ ?_
  · intro report delivered c' k' hQ
    exact hQ
  · intro cause delivered c' k' hF
    exact hF

/-- A command that nothing hinders is carried out. -/
theorem ensures_undertake_simulated (h : Sound c k) (hf : k.faults.Harmless)
    (hproceed : ∀ c₁ k₁, Carried c c₁ → Settled c₁ k₁ → Kept k k₁ →
      Delivers (Operation.proceed command bytes t c.drive) Q c₁ k₁) :
    Operation.Ensures surroundings (Operation.undertake command bytes t) (fun pass c' k' =>
      ∃ report, pass.outcome = .ok report ∧ Q report pass.delivered c' k') c k := by
  refine (ensures_undertake_linked (Q := Q) (F := fun _ _ _ _ => False) h.linked ?_).mono ?_
  · intro c₁ k₁ hturned hdrive
    have hf₁ : k₁.faults.Harmless := hturned.kept.faults ▸ hf
    apply (ensures_makeReceptive (h.turned hturned) hf₁).mono
    rintro _ c₂ k₂ ⟨hsetting, hsettled, hkept⟩
    exact hproceed c₂ k₂ ((hturned.carried hdrive).trans (carried_of_setting hsetting)) hsettled
      (hturned.kept.trans hkept)
  · rintro ⟨early, _ | report, delivered⟩ c' k' hpass
    · exact hpass.elim
    · exact ⟨report, rfl, hpass⟩

theorem ensures_complete (h : Linked c k) (early : Option Failure) (report : Report) :
    Operation.Ensures surroundings (Operation.complete early report) (fun report' c' k' =>
      (∃ notice, report' = { report with notice }) ∧ Turned c k c' k' ∧ c'.drive = c.drive) c k := by
  have hphase : Abides c { c with phase := .done } := .phase c .done
  have hnotice : Operation.Ensures surroundings (Operation.takeNotice early)
      (fun _ c' k' => Turned c k c' k' ∧ c'.drive = c.drive) { c with phase := .done } k := by
    have hstart : Turned c k { c with phase := .done } k := (Turned.refl h).abides hphase rfl
    unfold Operation.takeNotice
    split
    · exact ⟨hstart, rfl⟩
    · apply (turns_noticeStorm (h.abides hphase)).mono
      rintro _ c' k' ⟨hturned, hdrive⟩
      exact ⟨hstart.trans hturned, hdrive⟩
  unfold Operation.complete
  rw [Operation.ensures_bind, Operation.ensures_setPhase, Operation.ensures_bind]
  apply hnotice.mono
  rintro notice c' k' ⟨hturned, hdrive⟩
  rw [Operation.ensures_bind, Operation.ensures_modify]
  exact ⟨⟨notice, rfl⟩, hturned.abides ⟨rfl, rfl⟩ rfl, hdrive⟩

/-- A command that is accepted, and that nothing hinders, comes to its end. -/
theorem ensures_perform_simulated (h : Sound c k) (hf : k.faults.Harmless)
    (haccept : (Operation.accept command t).Ensures surroundings (fun r k' => r = .ok () ∧ k' = k) k)
    (hvalid : command.validate = .ok ())
    (hproceed : ∀ c₁ k₁, Carried c c₁ → Settled c₁ k₁ → Kept k k₁ →
      Delivers (Operation.proceed command (command.bytes c.drive c.recording) t c.drive)
        (fun report delivered c' k' => Linked c' k' ∧ Q report delivered c' k') c₁ k₁) :
    Operation.Ensures surroundings (Operation.perform command t) (fun r c' k' =>
      ∃ report notice c₁ k₁, r.1 = .ok { report with notice } ∧ Q report r.2 c₁ k₁ ∧
        Turned c₁ k₁ c' k' ∧ c'.drive = c₁.drive) c k := by
  unfold Operation.perform
  simp only [Operation.prepare, Operation.ensures_bind, Operation.ensures_lift]
  apply haccept.mono
  rintro _ k ⟨rfl, rfl⟩
  have hencode : command.encode c.drive c.recording = .ok (command.bytes c.drive c.recording) :=
    Command.encode_eq_ok_iff.mpr ⟨hvalid, rfl⟩
  simp only [Operation.ensures_bind, Operation.ensures_get, Operation.ensures_pure, hencode]
  apply (ensures_undertake_simulated h hf hproceed).mono
  rintro ⟨early, outcome, delivered⟩ c₁ k₁ ⟨report, houtcome, hlinked, hQ⟩
  obtain rfl : outcome = .ok report := houtcome
  simp only [Operation.ensures_bind, Operation.ensures_pure]
  apply (ensures_complete hlinked early report).mono
  rintro _ c' k' ⟨⟨notice, rfl⟩, hturned, hdrive⟩
  exact ⟨report, notice, c₁, k₁, rfl, hQ, hturned, hdrive⟩

end Diskette
