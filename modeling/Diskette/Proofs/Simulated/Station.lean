import Diskette.Proofs.Run
import Diskette.Proofs.Simulated.Transfers

/-!
A driver on a simulated machine that no fault hinders. Whatever it is asked for, it ends up ready for the
next request, and nothing but a data command touches what is stored.
-/
namespace Diskette

open Simulated
open Diskette.Core (surroundings)

variable {α : Type} {c c' c₁ : Controller} {k k' k₁ : Core} {command : Command} {span : SectorSpan}
  {t : Transfer}

/-- A driver, and the machine that it is on. -/
structure Station where
  controller : Controller
  machine : Simulated

def Station.perform (s : Station) (op : Operation α) : α × Station :=
  let ((a, controller), machine) := (op.run s.controller).run Simulated.machine s.machine
  (a, { controller, machine })

theorem Station.perform_bind {β : Type} (s : Station) (op : Operation α) (f : α → Operation β) :
    s.perform (op >>= f) = (s.perform op).2.perform (f (s.perform op).1) := by
  unfold perform
  rw [StateT.run_bind, Program.run_bind]

theorem Station.perform_of_ensures {s : Station} {op : Operation α} {Q : α → Controller → Core → Prop}
    (h : Operation.Ensures surroundings op Q s.controller s.machine.core) :
    Q (s.perform op).1 (s.perform op).2.controller (s.perform op).2.machine.core :=
  Program.Ensures.run Core.keepsTo h

/-- A settled controller, with a route for a payload and nothing in the way of it. -/
structure Ready (c : Controller) (k : Core) : Prop extends Settled c k where
  harmless : k.faults.Harmless
  routed : Routed c
  wired : Wired c

namespace Ready

theorem carried (h : Ready c k) (hc : Carried c c') (hsettled : Settled c' k')
    (hfaults : k'.faults = k.faults) : Ready c' k' := by
  refine ⟨hsettled, hfaults ▸ h.harmless, hc.routed h.routed, ?_⟩
  unfold Wired
  rw [hc.channel]
  exact h.wired

theorem turned (h : Ready c k) (hturned : Turned c k c' k') : Ready c' k' := by
  refine ⟨hturned.settled h.toSettled, hturned.kept.faults ▸ h.harmless, hturned.routed h.routed, ?_⟩
  unfold Wired
  rw [hturned.channel]
  exact h.wired

end Ready

/-- The driver is ready again, on the same drive, and nothing stored has changed. -/
structure Undisturbed (c : Controller) (k : Core) (c' : Controller) (k' : Core) : Prop where
  ready : Ready c' k'
  kept : Kept k k'
  drive : c'.drive = c.drive

theorem delivers_proceed {drive : Drive} {flags : RecordingMode} (h : Settled c k)
    (hf : k.faults.Harmless) (hvalid : command.validate = .ok ()) (hdata : command.transfer? = none) :
    Delivers (Operation.proceed command (command.bytes drive flags) none drive)
      (fun report _ c' k' => Served c (k.withHeads (command.headsAfter drive k.fdc.cylinders)) c' k' ∧
        ∀ cylinder, command.destination (k.fdc.cylinders drive) = some cylinder →
          report.TellsHead drive cylinder c') c k := by
  unfold Delivers Operation.proceed
  rw [hdata]
  cases hkind : command.kind with
  | seek => exact Delivery.ensures_attempt.mpr (goes_runSeek h hf hkind hvalid)
  | immediate =>
    have hstill : command.kind ≠ .seek := by simp [hkind]
    have hnowhere := Command.destination_eq_none hstill (k.fdc.cylinders drive)
    refine Delivery.ensures_attempt.mpr ((goes_immediate h hf hkind hvalid).mono ?_ fun _ _ _ => id)
    intro report c' k' hserved
    rw [Command.headsAfter_of_none hnowhere]
    refine ⟨hserved, fun cylinder hcylinder => ?_⟩
    exact absurd (hnowhere.symm.trans hcylinder) nofun
  | transfer => cases command <;> simp [Command.kind, Command.transfer?] at hkind hdata

/-- A command has come to its end. If it was to move the head, it reports where that has come to. -/
structure Executed (command : Command) (c : Controller) (k : Core) (report : Report) (c' : Controller) (k' : Core) :
    Prop where
  carried : Carried c c'
  settled : Settled c' k'
  kept : Kept (k.withHeads (command.headsAfter c.drive k.fdc.cylinders)) k'
  told : ∀ cylinder, command.destination (k.fdc.cylinders c.drive) = some cylinder →
    report.TellsHead c.drive cylinder c'

/-- A command without a payload comes to its end. -/
theorem ensures_execute_simulated (h : Sound c k) (hf : k.faults.Harmless)
    (hvalid : command.validate = .ok ()) (hdata : command.transfer? = none) :
    Operation.Ensures surroundings (Operation.execute command)
      (fun r c' k' => ∃ report, r = .ok report ∧ Executed command c k report c' k') c k := by
  have haccept : (Operation.accept command none).Ensures surroundings
      (fun r k' => r = .ok () ∧ k' = k) k := by
    unfold Operation.accept
    rw [hdata]
    exact ⟨rfl, rfl⟩
  unfold Operation.execute
  rw [Operation.ensures_bind]
  refine (ensures_perform_simulated (Q := fun report _ => Executed command c k report) h hf haccept hvalid ?_).mono ?_
  · intro c₁ k₁ hcarried hsettled hkept
    have hf₁ : k₁.faults.Harmless := hkept.faults ▸ hf
    refine (delivers_proceed hsettled hf₁ hvalid hdata).mono ?_ fun _ _ _ _ => id
    rintro report _ c₂ k₂ ⟨hserved, htold⟩
    have hkept₂ := hserved.kept
    rw [hkept.cylinders] at hkept₂ htold
    exact ⟨hserved.settled.toLinked, hcarried.trans (carried_of_setting hserved.setting), hserved.settled,
      (hkept.withHeads _).trans hkept₂, htold⟩
  · rintro ⟨outcome, delivered⟩ c' k' ⟨report, notice, c₁, k₁, rfl, hend, hturned, hdrive⟩
    refine ⟨_, rfl, hend.carried.trans (hturned.carried hdrive), hturned.settled hend.settled,
      hend.kept.trans hturned.kept, fun cylinder hcylinder => ?_⟩
    obtain ⟨hresult, htold⟩ := hend.told cylinder hcylinder
    exact ⟨hresult, hturned.cylinder.trans htold⟩

/-- A data command comes to its end, with all of its payload moved, and no head. -/
theorem ensures_executeWith_simulated (h : Ready c k) (hfits : t.Fits command span)
    (hbounce : t.length ≤ k.bounce.size)
    (hread : (k.fdc.disk.read (span.extent c.drive)).length = span.byteLength) :
    Operation.Ensures surroundings (Operation.executeWith command t) (fun r c' k' =>
      ∃ report, r.1 = .ok report ∧ report.transferred = t.length ∧ Ready c' k' ∧ c'.drive = c.drive ∧
        k'.fdc.cylinders = k.fdc.cylinders ∧ k'.bounce.size = k.bounce.size ∧
        match t.buffer with
        | .destination bytes => k'.fdc.disk = k.fdc.disk ∧
          r.2 = .destination (k.fdc.disk.read (span.extent c.drive) ++ bytes.drop t.length)
        | .source source => r.2 = .source source ∧
          k'.fdc.disk = k.fdc.disk.write (span.extent c.drive) (source.take t.length)) c k := by
  have haccept : (Operation.accept command (some t)).Ensures surroundings
      (fun r k' => r = .ok () ∧ k' = k) k := by
    unfold Operation.accept
    rw [hfits.data]
    refine Program.ensures_bind.mpr (Core.ensures_bounceSize.mono ?_)
    rintro _ _ ⟨rfl, rfl⟩
    exact ⟨Transfer.validate_eq_ok_iff.mpr ⟨⟨span, hfits⟩, hbounce⟩, rfl⟩
  unfold Operation.executeWith
  rw [Operation.ensures_bind]
  refine (ensures_perform_simulated (Q := Moved t (span.extent c.drive) c k)
    h.toSettled.sound h.harmless haccept hfits.valid ?_).mono ?_
  · intro c₁ k₁ hcarried hsettled hkept
    have h₁ : Ready c₁ k₁ := h.carried hcarried hsettled hkept.faults
    have hproceed : Operation.proceed command (command.bytes c.drive c.recording) (some t) c.drive =
        Operation.transfer (command.bytes c.drive c.recording) span t := by
      unfold Operation.proceed
      rw [hfits.data]
    have hread₁ : (k₁.fdc.disk.read (span.extent c.drive)).length = span.byteLength := by
      rw [hkept.disk]
      exact hread
    rw [hproceed]
    refine (delivers_transfer hsettled h₁.harmless h₁.routed h₁.wired hfits (hkept.bounce ▸ hbounce)
      hread₁).mono ?_ fun _ _ _ _ => id
    intro report delivered c₂ k₂ hmoved
    exact ⟨hmoved.settled.toLinked, hmoved.of_kept hcarried hkept⟩
  · rintro ⟨outcome, delivered⟩ c' k' ⟨report, notice, c₁, k₁, rfl, hmoved, hturned, hdrive⟩
    have hready : Ready c₁ k₁ := h.carried hmoved.carried hmoved.settled hmoved.faults
    have hpayload := hmoved.payload
    refine ⟨_, rfl, hmoved.transferred, hready.turned hturned, hdrive.trans hmoved.carried.drive,
      hturned.kept.cylinders.trans hmoved.cylinders, hturned.kept.bounce.trans hmoved.bounce, ?_⟩
    obtain ⟨length, buffer⟩ := t
    cases buffer with
    | destination bytes =>
      obtain ⟨rfl, hdisk⟩ := hpayload
      have hlength : (k.fdc.disk.read (span.extent c.drive)).length = length :=
        hread.trans hfits.length_eq.symm
      refine ⟨hturned.kept.disk.trans hdisk, ?_⟩
      simp only [PayloadBuffer.receive, hlength]
    | source source => exact ⟨rfl, hturned.kept.disk.trans hpayload⟩

theorem ensures_reset_ready (h : Ready c k) :
    Operation.Ensures surroundings Operation.reset (fun _ c' k' => Undisturbed c k c' k') c k := by
  have hlimit : k.faults.commandLimit ≠ some 0 := by simp [h.harmless.commandLimit]
  apply (ensures_reset_simulated h.toAt h.outOfReset hlimit).mono
  intro _ c' k' hrevived
  have hcarried : Carried c c' := carried_of_setting hrevived.setting
  exact ⟨h.carried hcarried (hrevived.harmless h.harmless) hrevived.kept.faults, hrevived.kept,
    hcarried.drive⟩

theorem ensures_setRate_simulated (h : Ready c k) (rate : DataRate) :
    Operation.Ensures surroundings (Operation.setRate rate)
      (fun _ c' k' => Undisturbed c k c' k') c k := by
  unfold Operation.setRate
  rw [Operation.ensures_shadowed]
  refine Program.ensures_bind.mpr ((Core.ensures_writeRate h.toAt _).mono ?_)
  rintro _ _ rfl
  refine ⟨⟨⟨⟨⟨h.present, h.base_eq, h.room⟩, h.output_eq, h.outOfReset⟩, h.whole, h.command, h.quiet,
    h.told⟩, h.harmless, h.routed, h.wired⟩, ⟨rfl, rfl, rfl, rfl⟩, rfl⟩

theorem ensures_setRecording (h : Ready c k) (recording : RecordingMode) :
    Operation.Ensures surroundings (Operation.setRecording recording)
      (fun _ c' k' => Undisturbed c k c' k') c k := by
  have hlinked : Linked { c with recording } k := h.toLinked.same rfl (.refl k)
  exact ⟨⟨⟨hlinked, h.whole, h.command, h.quiet, h.told⟩, h.harmless, h.routed, h.wired⟩, .refl k, rfl⟩

/-- A data command without a buffer is refused. -/
theorem ensures_execute_unfed (hdata : command.transfer?.isSome) :
    Operation.Ensures surroundings (Operation.execute command) (fun _ c' k' => c' = c ∧ k' = k) c k := by
  obtain ⟨run, hrun⟩ := Option.isSome_iff_exists.mp hdata
  have hprepare : Operation.prepare command none = pure (.error .missingBuffer) := by
    unfold Operation.prepare Operation.accept
    rw [hrun]
    rfl
  unfold Operation.execute Operation.perform
  rw [hprepare]
  exact ⟨rfl, rfl⟩

/-- The registers that are only looked at. -/
theorem ensures_looks (h : Core.At c.base k) :
    Operation.Ensures surroundings Operation.mainStatus (fun _ c' k' => c' = c ∧ k' = k) c k ∧
      Operation.Ensures surroundings Operation.digitalInput (fun _ c' k' => c' = c ∧ k' = k) c k ∧
      Operation.Ensures surroundings Operation.ps2Status (fun _ c' k' => c' = c ∧ k' = k) c k := by
  have hinput : ∀ port, port ≠ Port.data c.base →
      (Platform.input port).Ensures surroundings (fun _ k' => k' = k) k := by
    intro port hport
    refine Core.ensures_incidental (.perform ?_)
    rw [h.base_eq]
    exact hport
  refine ⟨?_, ?_, ?_⟩
  · simp only [Operation.mainStatus, Operation.ensures_bind, Operation.ensures_get,
      Operation.ensures_lift]
    apply (Core.ensures_readStatus h).mono
    rintro _ _ ⟨rfl, -⟩
    exact ⟨trivial, rfl⟩
  · simp only [Operation.digitalInput, Operation.ensures_bind, Operation.ensures_get,
      Operation.ensures_ite, Operation.ensures_pure, Operation.ensures_lift]
    split
    · apply (hinput _ (by simp [Port.digitalInput, Port.data])).mono
      rintro _ _ rfl
      exact ⟨trivial, rfl⟩
    · exact ⟨trivial, trivial⟩
  · simp only [Operation.ps2Status, Operation.ensures_bind, Operation.ensures_get,
      Operation.ensures_ite, Operation.ensures_pure, Operation.ensures_lift]
    split
    · apply (hinput _ (by simp [Port.statusA, Port.data])).mono
      rintro _ _ rfl
      apply (hinput _ (by simp [Port.statusB, Port.data])).mono
      rintro _ _ rfl
      exact ⟨trivial, rfl⟩
    · exact ⟨trivial, trivial⟩

/-- A request that a caller may make, with data commands for sectors of one size. -/
def Request.Valid (code : UInt8) : Request → Prop
  | .execute command => command.validate = .ok ()
  | .executeWith command t => t.validate command 4096 = .ok () ∧
    ∀ span direction, command.transfer? = some (span, direction) → span.sizeCode = code
  | _ => True

/-- The drive that is selected after a request. -/
def Request.driveAfter (drive : Drive) : Request → Drive
  | .selectDrive drive => drive
  | _ => drive

/-- Where the heads are after a request. -/
def Request.headsAfter (drive : Drive) (heads : Drive → UInt8) : Request → Drive → UInt8
  | .execute command => command.headsAfter drive heads
  | _ => heads

/-- Whatever moves no payload leaves everything ready, and leaves alone what is stored. -/
theorem ensures_request_simulated (h : Ready c k) {code : UInt8} {request : Request}
    (hvalid : request.Valid code) (hdata : ∀ command t, request ≠ .executeWith command t) :
    Operation.Ensures surroundings request.perform (fun _ c' k' => Ready c' k' ∧
      Kept (k.withHeads (request.headsAfter c.drive k.fdc.cylinders)) k' ∧
      c'.drive = request.driveAfter c.drive) c k := by
  have hstill : Ready c k ∧ Kept k k ∧ c.drive = c.drive := ⟨h, .refl k, rfl⟩
  have hplain : ∀ c' k', Undisturbed c k c' k' → Ready c' k' ∧ Kept k k' ∧ c'.drive = c.drive :=
    fun _ _ hdone => ⟨hdone.ready, hdone.kept, hdone.drive⟩
  obtain ⟨hmain, hinput, hps2⟩ := ensures_looks h.toAt
  cases request with
  | execute command =>
    apply Operation.ensures_bind.mpr
    cases hrun : command.transfer? with
    | none =>
      apply (ensures_execute_simulated h.toSettled.sound h.harmless hvalid hrun).mono
      rintro _ c' k' ⟨-, -, hcarried, hsettled, hkept, -⟩
      exact ⟨h.carried hcarried hsettled hkept.faults, hkept, hcarried.drive⟩
    | some run =>
      apply (ensures_execute_unfed (by rw [hrun]; rfl)).mono
      rintro _ _ _ ⟨rfl, rfl⟩
      cases command with
      | read | write => exact hstill
      | _ => exact absurd hrun nofun
  | executeWith command t => exact absurd rfl (hdata command t)
  | reset => exact (ensures_reset_ready h).mono fun _ => hplain
  | enableDma =>
    refine Operation.ensures_bind.mpr ((turns_enableDma h.toLinked).mono ?_)
    rintro _ c' k' ⟨hturned, hdrive⟩
    exact ⟨h.turned hturned, hturned.kept, hdrive⟩
  | disableDma =>
    apply (turns_disableDma h.toLinked).mono
    rintro _ c' k' ⟨hturned, hdrive, -⟩
    exact ⟨h.turned hturned, hturned.kept, hdrive⟩
  | selectDrive drive =>
    apply (turns_selectDrive h.toLinked drive).mono
    rintro _ c' k' ⟨hturned, hdrive⟩
    exact ⟨h.turned hturned, hturned.kept, hdrive⟩
  | setMotor drive on =>
    apply (turns_setMotor h.toLinked drive on).mono
    rintro _ c' k' ⟨hturned, hdrive⟩
    exact ⟨h.turned hturned, hturned.kept, hdrive⟩
  | setRate rate => exact (ensures_setRate_simulated h rate).mono fun _ => hplain
  | setRecording recording => exact (ensures_setRecording h recording).mono fun _ => hplain
  | mainStatus =>
    refine Operation.ensures_bind.mpr (hmain.mono ?_)
    rintro _ _ _ ⟨rfl, rfl⟩
    exact hstill
  | digitalInput =>
    refine Operation.ensures_bind.mpr (hinput.mono ?_)
    rintro _ _ _ ⟨rfl, rfl⟩
    exact hstill
  | ps2Status =>
    refine Operation.ensures_bind.mpr (hps2.mono ?_)
    rintro _ _ _ ⟨rfl, rfl⟩
    exact hstill

end Diskette
