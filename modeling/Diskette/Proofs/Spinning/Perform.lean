import Diskette.Proofs.Spinning.Commands
import Diskette.Proofs.Standing

/-!
Whole commands. Until the motor is seen to, the motors are as they were and no command goes out that needs one; from
then on they are as the spin-up has left them, and the command goes out to the drive that was selected for it.
-/
namespace Diskette

/-- The output register selects a drive whose motor runs, out of reset. -/
structure Driving (drive : Drive) (output : DigitalOutput) : Prop where
  selected : output.drive = drive
  running : output.motorOn drive
  outOfReset : output.resetAsserted = false

namespace Terms

/-- The motors are let be, nothing is reset, and no command goes out that needs a motor. -/
def resting (motors : Motors) : Terms where
  writes output := output.motors = motors ∧ output.resetAsserted = false
  speaks _ _ := False

/-- The motors are let be, and no command goes out that needs a motor but this one. -/
def running (motors : Motors) (drive : Drive) (bytes : List UInt8) : Terms where
  writes output := output.motors = motors
  speaks last spoken := spoken <+: bytes ∧ ∃ value ∈ last, Driving drive (.decode value)

end Terms

variable {base : UInt16} {terms : Terms} {motors motors' : Motors} {drive : Drive} {command : Command}
  {recording : RecordingMode} {transfer : Option Transfer} {bytes : List UInt8} {c : Controller}
  {t u v : History Platform}

theorem Terms.start_running (hmotor : Opcode.NeedsMotor (bytes.headD 0) → motors.on drive) :
    (running motors drive bytes).Start motors drive bytes := by
  rintro output rfl rfl hreset hneeds spoken hspoken
  refine ⟨hspoken, output.encode, rfl, ?_⟩
  rw [DigitalOutput.decode_encode]
  exact ⟨rfl, hmotor hneeds, hreset⟩

theorem minds_proceed (hprepared : Operation.Prepared drive recording command transfer bytes)
    (hstart : terms.Start motors drive bytes) :
    DeliveryMinds base terms motors drive (Operation.proceed command bytes transfer drive) := by
  obtain ⟨rfl, hvalid, hdata⟩ := hprepared
  have hframed := Wire.framed_bytes command drive recording
  have hpayload := Wire.payload_bytes hvalid drive recording
  unfold Operation.proceed
  cases transfer with
  | some t =>
    obtain ⟨span, hfits⟩ := hdata
    rw [hfits.data] at hpayload
    simp only [hfits.data]
    exact minds_transfer hframed (command.validate_span hfits.data hvalid) hfits.length_eq hpayload hstart
  | none =>
    have hnone : command.transfer? = none := hdata
    rw [hnone] at hpayload
    simp only [hnone]
    split
    · exact .attempt (minds_runSeek command drive hframed hpayload hstart)
    · exact .attempt (minds_runImmediate command hframed hpayload hstart)

section Reset

variable (hwrites : ∀ output : DigitalOutput, output.motors = motors → terms.writes output)

include hwrites

theorem idling_recover (command : Command) (cause : Failure) (h : Unsettled base motors drive c t) :
    Operation.Ensures (minded base terms) (Operation.recover command cause) (fun _ => Idling base motors drive) c t := by
  refine Operation.ensures_bind.mpr ((alert_unsettled.log _ c t h).mono fun _ c₁ t₁ h₁ => ?_)
  refine Operation.ensures_bind.mpr ((alert_unsettled.maskChannel c₁ t₁ h₁).mono fun _ c₂ t₂ h₂ => ?_)
  rw [Operation.ensures_bind, Operation.ensures_modify, Operation.ensures_bind]
  have h₃ : Unsettled base motors drive { c₂ with expectation := .idle } t₂ := h₂.of_shadow rfl
  exact (idling_of_reset hwrites h₃).mono fun _ => alert_idling.setPhase _

theorem idling_complete (early : Option Failure) (report : Report) :
    Operation.Keeps (minded base terms) (Idling base motors drive) (Operation.complete early report) :=
  fun _ _ h => (alert_idling.complete (idling_disableDma fun _ hmotors _ => hwrites _ hmotors)
    (fun _ h' => h'.of_shadow rfl) early report h).mono fun _ _ _ => And.right

end Reset

/-- How the motor of a drive comes to run for a command: the command does without it, or it runs already, or it is
started and given the time that it takes. -/
inductive SpinUp (base : UInt16) (command : Command) (drive : Drive) (motors : Motors) :
    Motors → History Platform → Prop
  | without : ¬command.needsMotor → SpinUp base command drive motors motors []
  | already : motors.on drive → SpinUp base command drive motors motors []
  | started {output : DigitalOutput} : command.needsMotor → motors.on drive = false →
      output.motors = motors.set drive true → output.resetAsserted = false →
      SpinUp base command drive motors (motors.set drive true)
        [⟨.log base (.spinningUp drive), ()⟩, ⟨.output (Port.digitalOutput base) output.encode, ()⟩,
          ⟨.delay Operation.startTime, ()⟩]

namespace SpinUp

theorem running (h : SpinUp base command drive motors motors' v) (hneeds : command.needsMotor) : motors'.on drive := by
  cases h with
  | without hnot => exact absurd hneeds hnot
  | already hon => exact hon
  | started => simp [Motors.on_set]

theorem others (h : SpinUp base command drive motors motors' v) {other : Drive} (hother : other ≠ drive) :
    motors'.on other = motors.on other := by
  cases h with
  | without | already => rfl
  | started => rw [Motors.on_set, if_neg hother]

end SpinUp

/-- A motor that is started leaves the drive selected, and has time to come up to speed. -/
theorem ensures_startMotor (hoff : motors.on drive = false) (hneeds : command.needsMotor)
    (h : Idling base motors drive c t) :
    Operation.Ensures recorded (Operation.startMotor drive) (fun _ c' t' => ∃ motors' v, t' = t ++ v ∧
      SpinUp base command drive motors motors' v ∧ Idling base motors' drive c' t') c t := by
  obtain ⟨output, houtput⟩ : ∃ output, output = c.shadow.output.setMotor drive true := ⟨_, rfl⟩
  have hbase : c.shadow.base = base := h.base_eq
  have hoff' : ¬c.shadow.output.motorOn drive := by
    rw [DigitalOutput.motorOn, h.motors_eq, hoff]
    decide
  have hmotors : output.motors = motors.set drive true := by
    rw [houtput, ← h.motors_eq]
    rfl
  have hreset : output.resetAsserted = false := by
    rw [houtput]
    exact h.outOfReset
  have hdrive : output.drive = drive := by
    rw [houtput]
    exact h.drive_eq
  simp only [Operation.startMotor, Operation.ensures_bind, Operation.ensures_get, Operation.ensures_ite, if_neg hoff',
    Operation.ensures_log, Operation.ensures_lift, Operation.setMotor, Operation.ensures_shadowed]
  refine Program.ensures_recorded.mpr fun _ => Program.ensures_recorded.mpr fun _ => ?_
  refine Program.ensures_recorded.mpr fun _ => ?_
  have hlogged : Idling base motors drive c (t ++ [⟨.log c.base (.spinningUp drive), ()⟩]) :=
    h.append (by simp) (by rw [Wire.heard_snoc]; exact h.due)
  have hwritten := hlogged.write output hreset hdrive
  rw [hmotors] at hwritten
  have hwaited : Idling base (motors.set drive true) drive _ (_ ++ [⟨.delay Operation.startTime, ()⟩]) :=
    hwritten.append (by simp) (by rw [Wire.heard_snoc]; exact hwritten.due)
  refine ⟨_, _, ?_, .started hneeds hoff hmotors hreset, ?_⟩
  · simp [hbase, houtput, Controller.base]
  · subst houtput
    exact hwaited

/-- The drive is ready when its motor runs, and the motors have changed in no other way. -/
theorem ensures_spinUp (command : Command) (h : Idling base motors drive c t) :
    Operation.Ensures recorded (Operation.readyDrive command drive) (fun _ c' t' => ∃ motors' v, t' = t ++ v ∧
      SpinUp base command drive motors motors' v ∧ Idling base motors' drive c' t') c t := by
  have hkept : t = t ++ [] := by simp
  unfold Operation.readyDrive
  rw [Operation.ensures_ite]
  split
  case isFalse hnot => exact ⟨motors, [], hkept, .without hnot, h⟩
  case isTrue hneeds =>
    cases hmotor : motors.on drive with
    | false => exact ensures_startMotor hmotor hneeds h
    | true =>
      have hon : c.shadow.output.motorOn drive := by rwa [DigitalOutput.motorOn, h.motors_eq]
      simp only [Operation.startMotor, Operation.ensures_bind, Operation.ensures_get, Operation.ensures_ite, hon,
        if_true, Operation.ensures_pure]
      exact ⟨motors, [], hkept, .already hmotor, h⟩

/-- What is called for a command that is not rejected: the motors rest, then the motor of the drive is seen to, and
then it runs. -/
inductive Driven (base : UInt16) (command : Command) (drive : Drive) (bytes : List UInt8) (motors motors' : Motors)
    (t : History Platform) : History Platform → Prop
  | intro {lead v rest : History Platform} : (minder base (.resting motors)).Accepts t lead →
      SpinUp base command drive motors motors' v →
      (minder base (.running motors' drive bytes)).Accepts (t ++ lead ++ v) rest →
      Driven base command drive bytes motors motors' t (lead ++ v ++ rest)

namespace Driven

theorem prepend (hu : (minder base (.resting motors)).Accepts t u)
    (h : Driven base command drive bytes motors motors' (t ++ u) v) :
    Driven base command drive bytes motors motors' t (u ++ v) := by
  obtain ⟨hlead, hspin, hrest⟩ := h
  have hwhole := Listener.accepts_append _ hu (by rwa [minder_after])
  simpa using Driven.intro hwhole hspin (by simpa using hrest)

theorem append (h : Driven base command drive bytes motors motors' t u)
    (hv : (minder base (.running motors' drive bytes)).Accepts (t ++ u) v) :
    Driven base command drive bytes motors motors' t (u ++ v) := by
  obtain ⟨hlead, hspin, hrest⟩ := h
  have hwhole := Listener.accepts_append _ hrest (by rw [minder_after]; simpa using hv)
  simpa using Driven.intro hlead hspin hwhole

end Driven

theorem ensures_carryOut_driven (hprepared : Operation.Prepared drive recording command transfer bytes)
    (h : Idling base motors drive c t) :
    Operation.Ensures recorded ((Operation.carryOut command bytes transfer).run []) (fun r c' t' => ∃ motors' u,
      t' = t ++ u ∧ Driven base command drive bytes motors motors' t u ∧ match r.1 with
        | .ok _ => Idling base motors' drive c' t'
        | .error _ => Unsettled base motors' drive c' t') c t := by
  rw [Delivery.ensures_run]
  unfold Operation.carryOut
  rw [Delivery.ensures_bind, Delivery.ensures_getThe, Delivery.ensures_bind, Delivery.ensures_operation, h.drive_eq]
  refine (ensures_spinUp command h).mono ?_
  rintro - c₁ _ ⟨motors', v, rfl, hspin, h₁⟩
  have hmotor : Opcode.NeedsMotor (bytes.headD 0) → motors'.on drive := by
    rw [hprepared.bytes_eq, command.needsMotor_iff]
    exact hspin.running
  have hrest : DeliveryMinds base (.running motors' drive bytes) motors' drive (do
      Operation.makeReceptive
      Operation.proceed command bytes transfer drive) :=
    .bind (.operation (alert_idling.makeReceptive (idling_reset fun _ => id))) fun _ =>
      minds_proceed hprepared (Terms.start_running hmotor)
  have hdriven : ∀ rest, (minder base (.running motors' drive bytes)).Accepts (t ++ v) rest →
      Driven base command drive bytes motors motors' t (v ++ rest) :=
    fun rest hrest => .intro (Listener.accepts_nil _ _) hspin (by simpa using hrest)
  refine Operation.Ensures.mono (Operation.Ensures.accepted (hrest [] c₁ _ h₁)) ?_
  rintro ⟨cause | report, delivered⟩ c₂ _ ⟨h₂, rest, rfl, haccepts⟩
  · exact ⟨motors', v ++ rest, by simp, hdriven rest haccepts, h₂⟩
  · exact ⟨motors', v ++ rest, by simp, hdriven rest haccepts, h₂⟩

theorem ensures_undertake_driven (hprepared : Operation.Prepared drive recording command transfer bytes)
    (h : Idling base motors drive c t) :
    Operation.Ensures recorded (Operation.undertake command bytes transfer) (fun pass c' t' => ∃ motors' u,
      t' = t ++ u ∧ Driven base command drive bytes motors motors' t u ∧ match pass.outcome with
        | .ok _ => Idling base motors' drive c' t'
        | .error _ => Unsettled base motors' drive c' t') c t := by
  have hnotice : Operation.Keeps (minded base (.resting motors)) (Idling base motors drive) Operation.noticeStorm :=
    idling_noticeStorm fun _ => And.intro
  unfold Operation.undertake
  refine Operation.ensures_bind.mpr ((hnotice c t h).accepted.mono ?_)
  rintro early c₁ _ ⟨h₁, u₁, rfl, hu₁⟩
  rw [Operation.ensures_bind, Operation.ensures_setPhase, Operation.ensures_bind, Operation.ensures_get,
    Operation.ensures_bind]
  have hready : Idling base motors drive { c₁ with phase := .ready } (t ++ u₁) := h₁.of_shadow rfl
  have hlog : Operation.Keeps (minded base (.resting motors)) (Idling base motors drive)
      (Operation.log (.submitted command c₁.drive)) := alert_idling.log _
  refine (hlog _ _ hready).accepted.mono ?_
  rintro - c₂ _ ⟨h₂, u₂, rfl, hu₂⟩
  refine Operation.ensures_bind.mpr ((ensures_carryOut_driven hprepared h₂).mono ?_)
  rintro ⟨outcome, delivered⟩ c₃ _ ⟨motors', u₃, rfl, hdriven, h₃⟩
  exact ⟨motors', u₁ ++ (u₂ ++ u₃), by simp, .prepend hu₁ (.prepend hu₂ hdriven), h₃⟩

/-- A command is rejected before any motor is seen to, or it is driven to its end and whatever comes after it. -/
theorem ensures_perform_driven (h : Idling base motors drive c t) :
    Operation.Ensures recorded (Operation.perform command transfer) (fun _ _ t' => ∃ u, t' = t ++ u ∧
      ((minder base (.resting motors)).Accepts t u ∨
        ∃ motors', Driven base command drive (command.bytes drive c.recording) motors motors' t u)) c t := by
  have hprepare : Operation.Ensures (minded base (.resting motors)) (Operation.prepare command transfer) _ c t :=
    Operation.ensures_prepare (K := Idling base motors drive c) (alert_idling.brief (by trivial) h) h
  unfold Operation.perform
  refine Operation.ensures_bind.mpr (hprepare.accepted.mono ?_)
  rintro (cause | bytes) c₁ _ ⟨⟨rfl, h₁, hprepared⟩, u₁, rfl, hu₁⟩
  · exact ⟨u₁, rfl, .inl hu₁⟩
  replace hprepared := hprepared bytes rfl
  rw [h.drive_eq] at hprepared
  obtain rfl := hprepared.bytes_eq
  refine Operation.ensures_bind.mpr ((ensures_undertake_driven hprepared h₁).mono ?_)
  rintro ⟨early, outcome, delivered⟩ c₂ _ ⟨motors', u₂, rfl, hdriven, h₂⟩
  have hwrites : ∀ output : DigitalOutput, output.motors = motors' →
      (Terms.running motors' drive (command.bytes drive c₁.recording)).writes output := fun _ => id
  have hend : ∀ v, (minder base (.running motors' drive (command.bytes drive c₁.recording))).Accepts (t ++ u₁ ++ u₂) v →
      Driven base command drive (command.bytes drive c₁.recording) motors motors' t (u₁ ++ (u₂ ++ v)) :=
    fun v hv => .prepend hu₁ (hdriven.append hv)
  cases outcome with
  | ok report =>
    refine Operation.ensures_bind.mpr ((idling_complete hwrites early report c₂ _ h₂).accepted.mono ?_)
    rintro _ c₃ _ ⟨-, v, rfl, hv⟩
    exact ⟨u₁ ++ (u₂ ++ v), by simp, .inr ⟨motors', hend v hv⟩⟩
  | error cause =>
    refine Operation.ensures_bind.mpr ((idling_recover hwrites command cause h₂).accepted.mono ?_)
    rintro _ c₃ _ ⟨-, v, rfl, hv⟩
    exact ⟨u₁ ++ (u₂ ++ v), by simp, .inr ⟨motors', hend v hv⟩⟩

end Diskette
