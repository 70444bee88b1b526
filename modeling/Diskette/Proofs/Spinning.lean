import Diskette.Proofs.Handshake
import Diskette.Proofs.Spinning.Perform

/-!
The drive that a command is for is selected and spinning when the command goes out. A motor that does not run yet is
started once and waited for once, a reset in between leaves it running, and the motors of the other drives are let be.
-/
namespace Diskette

variable {base : UInt16} {terms : Terms} {motors motors' : Motors} {drive : Drive} {command : Command}
  {recording : RecordingMode} {transfer : Option Transfer} {bytes spoken : List UInt8} {value : UInt8} {c : Controller}
  {t u v before later : History Platform} {histories : List (History Platform)}

section Accepted

variable (h : (minder base terms).Accepts t u)

include h

theorem writes_of_accepts (hmem : ⟨.output (Port.digitalOutput base) value, ()⟩ ∈ u) : terms.writes (.decode value) := by
  obtain ⟨before, later, rfl⟩ := List.append_of_mem hmem
  exact (h before _ later rfl).1 rfl

theorem unwaited_of_accepts : ⟨.delay Operation.startTime, ()⟩ ∉ u := by
  intro hmem
  obtain ⟨before, later, rfl⟩ := List.append_of_mem hmem
  exact h before _ later rfl rfl

theorem speaks_of_accepts (hsplit : u = before ++ ⟨.output (Port.data base) value, ()⟩ :: later)
    (hspells : (Wire.heard base (t ++ before)).Spells value spoken) :
    terms.speaks (lastWritten (Port.digitalOutput base) (t ++ before)) spoken := by
  have hpermits := h before _ later hsplit
  rw [minder_after] at hpermits
  exact hpermits.2 rfl spoken hspells

end Accepted

namespace SpinUp

variable (h : SpinUp base command drive motors motors' v)

include h

theorem writes (hmem : ⟨.output (Port.digitalOutput base) value, ()⟩ ∈ v) :
    (DigitalOutput.decode value).motors = motors' := by
  cases h with
  | without | already => simp at hmem
  | @started output _ _ hmotors _ =>
    obtain rfl : value = output.encode := by simpa using hmem
    rw [DigitalOutput.decode_encode, hmotors]

theorem says_nothing : ⟨.output (Port.data base) value, ()⟩ ∉ v := by
  cases h with
  | without | already => simp
  | started => simp [Wire.digitalOutput_ne_data.symm]

theorem off_of_waits (hmem : ⟨.delay Operation.startTime, ()⟩ ∈ v) : command.needsMotor ∧ motors.on drive = false := by
  cases h with
  | without | already => simp at hmem
  | started hneeds hoff => exact ⟨hneeds, hoff⟩

end SpinUp

/-- Up to one write of the output register a motor is off and nothing is reset, and from then on the motor is on. Its
time to start is waited for right after that write, and at no other time. -/
structure StartedBy (base : UInt16) (drive : Drive) (early : History Platform) (on : UInt8) (late : History Platform) :
    Prop where
  running : (DigitalOutput.decode on).motorOn drive
  outOfReset : (DigitalOutput.decode on).resetAsserted = false
  before : ∀ value, ⟨.output (Port.digitalOutput base) value, ()⟩ ∈ early →
    (DigitalOutput.decode value).motorOn drive = false ∧ (DigitalOutput.decode value).resetAsserted = false
  after : ∀ value, ⟨.output (Port.digitalOutput base) value, ()⟩ ∈ late → (DigitalOutput.decode value).motorOn drive
  once : ⟨.delay Operation.startTime, ()⟩ ∉ early ++ late

/-- A motor has been started. -/
def Started (base : UInt16) (drive : Drive) (t : History Platform) : Prop :=
  ∃ early on late, t = early ++ [⟨.output (Port.digitalOutput base) on, ()⟩, ⟨.delay Operation.startTime, ()⟩] ++ late ∧
    StartedBy base drive early on late

/-- What is called for a command, with the motors as they were before it. Whenever some first bytes of a command that
needs a motor have gone out, they are of this one, and its drive is selected and spinning. -/
structure Spinning (base : UInt16) (command : Command) (drive : Drive) (recording : RecordingMode) (motors : Motors)
    (old t : History Platform) : Prop where
  addressed : ∀ before value later spoken, t = before ++ ⟨.output (Port.data base) value, ()⟩ :: later →
    (Wire.heard base (old ++ before)).Spells value spoken →
      spoken <+: command.bytes drive recording ∧
        (∃ output ∈ lastWritten (Port.digitalOutput base) (old ++ before), Driving drive (.decode output)) ∧
        (motors.on drive = false → Started base drive before)
  unwaited : motors.on drive ∨ ¬command.needsMotor → ⟨.delay Operation.startTime, ()⟩ ∉ t
  others : ∀ value, ⟨.output (Port.digitalOutput base) value, ()⟩ ∈ t → ∀ other, other ≠ drive →
    (DigitalOutput.decode value).motorOn other = motors.on other

/-- A command that is rejected lets all motors be. -/
theorem spinning_of_resting (h : (minder base (.resting motors)).Accepts t u) :
    Spinning base command drive recording motors t u where
  addressed _ _ _ _ hsplit hspells := (speaks_of_accepts h hsplit hspells).elim
  unwaited _ := unwaited_of_accepts h
  others _ hmem _ _ := by rw [DigitalOutput.motorOn, (writes_of_accepts h hmem).1]

theorem started_of_spinUp (hlead : (minder base (.resting motors)).Accepts t u)
    (hspin : SpinUp base command drive motors motors' v) (hneeds : command.needsMotor) (hoff : motors.on drive = false)
    (hrest : (minder base (.running motors' drive bytes)).Accepts (t ++ u ++ v) (before ++ later)) :
    Started base drive (u ++ v ++ before) := by
  cases hspin with
  | without hnot => exact absurd hneeds hnot
  | already hon => simp [hoff] at hon
  | @started output _ _ hmotors hreset =>
    have hbefore : ∀ e ∈ before, e ∈ before ++ later := fun _ => List.mem_append_left later
    refine ⟨u ++ [⟨.log base (.spinningUp drive), ()⟩], output.encode, before, by simp, ?_⟩
    refine ⟨?_, by rw [DigitalOutput.decode_encode, hreset], fun value hmem => ?_, fun value hmem => ?_, ?_⟩
    · simp [DigitalOutput.motorOn, hmotors, Motors.on_set]
    · have hmem' : ⟨.output (Port.digitalOutput base) value, ()⟩ ∈ u := by simpa using hmem
      obtain ⟨hsame, hreset'⟩ := writes_of_accepts hlead hmem'
      exact ⟨by rw [DigitalOutput.motorOn, hsame, hoff], hreset'⟩
    · have hsame : (DigitalOutput.decode value).motors = motors.set drive true :=
        writes_of_accepts hrest (hbefore _ hmem)
      simp [DigitalOutput.motorOn, hsame, Motors.on_set]
    · have hlead' := unwaited_of_accepts hlead
      have hrest' := unwaited_of_accepts hrest
      simpa [not_or] using ⟨hlead', fun hmem => hrest' (hbefore _ hmem)⟩

namespace Driven

/-- A command that is not rejected speaks to its drive alone. -/
theorem spinning (h : Driven base command drive (command.bytes drive recording) motors motors' t u) :
    Spinning base command drive recording motors t u := by
  obtain @⟨lead, v, rest, hlead, hspin, hrest⟩ := h
  constructor
  · intro before value later spoken hsplit hspells
    rcases split_append hsplit with ⟨part, hpart, -⟩ | ⟨part, rfl, hpart⟩
    · -- nothing goes out until the motor has been seen to
      rcases split_append hpart with ⟨part', hlead', -⟩ | ⟨part', -, rfl⟩
      · exact (speaks_of_accepts hlead hlead' hspells).elim
      · exact (hspin.says_nothing (List.mem_append_right part' List.mem_cons_self)).elim
    · rw [← List.append_assoc, ← List.append_assoc] at hspells ⊢
      obtain ⟨hspoken, hdriving⟩ := speaks_of_accepts hrest hpart hspells
      refine ⟨hspoken, hdriving, fun hoff => ?_⟩
      have hneeds : command.needsMotor := by
        rw [← command.needsMotor_iff drive recording]
        obtain ⟨more, hmore⟩ := hspoken
        have hneeds := hspells.needsMotor
        rw [← hmore]
        cases spoken with
        | nil => exact absurd hspells.spoken_eq (by simp)
        | cons => exact hneeds
      exact started_of_spinUp hlead hspin hneeds hoff (hpart ▸ hrest)
  · intro hrunning hmem
    simp only [List.mem_append] at hmem
    rcases hmem with (hmem | hmem) | hmem
    · exact unwaited_of_accepts hlead hmem
    · obtain ⟨hneeds, hoff⟩ := hspin.off_of_waits hmem
      rcases hrunning with hon | hnot
      · simp [hoff] at hon
      · exact hnot hneeds
    · exact unwaited_of_accepts hrest hmem
  · intro value hmem other hother
    simp only [List.mem_append] at hmem
    rw [DigitalOutput.motorOn]
    rcases hmem with (hmem | hmem) | hmem
    · rw [(writes_of_accepts hlead hmem).1]
    · rw [hspin.writes hmem, hspin.others hother]
    · have hsame : (DigitalOutput.decode value).motors = motors' := writes_of_accepts hrest hmem
      rw [hsame, hspin.others hother]

end Driven

theorem ensures_request_spinning {request : Request} (hcommand : request.command? = some (command, transfer))
    (h : Idling base motors drive c t) :
    Operation.Ensures recorded request.perform
      (fun _ _ t' => ∃ u, t' = t ++ u ∧ Spinning base command drive c.recording motors t u) c t := by
  have hperform : Operation.Ensures recorded (Operation.perform command transfer)
      (fun _ _ t' => ∃ u, t' = t ++ u ∧ Spinning base command drive c.recording motors t u) c t := by
    refine (ensures_perform_driven h).mono ?_
    rintro _ _ _ ⟨u, rfl, hresting | ⟨motors', hdriven⟩⟩
    · exact ⟨u, rfl, spinning_of_resting hresting⟩
    · exact ⟨u, rfl, hdriven.spinning⟩
  cases request with
  | execute | executeWith =>
    obtain ⟨rfl, rfl⟩ := Prod.mk.inj (Option.some.inj hcommand)
    simp only [Request.perform, Operation.execute, Operation.executeWith, Operation.ensures_bind,
      Operation.ensures_pure]
    exact hperform
  | _ => cases hcommand

theorem Run.idling (h : Run base histories (some c)) :
    Idling base c.shadow.output.motors c.drive c histories.flatten := by
  obtain ⟨-, -, hrests, -⟩ := heard_run h
  obtain ⟨old, t, hold, hcoherent⟩ := h.coherent c rfl
  exact ⟨hcoherent.base_eq, hcoherent.outOfReset, rfl, rfl, by simp [hold, hcoherent.output], hrests.due⟩

/-- Whatever has been done before, and whatever is answered: with a command, its own bytes alone go out of those that
need a motor, while its drive is selected and spinning; if the motor was off, it has been started for it and given its
time; if it was on, nothing is waited for. Neither a command nor a reset touches the motors of the other drives. -/
theorem addressed_drive_spins (h : Run base histories (some c)) :
    (Wire.heard base histories.flatten).due = 0 ∧
      ∃ submitted, lastWritten (Port.digitalOutput base) histories.flatten = some submitted ∧
      let output := DigitalOutput.decode submitted
      (∀ (request : Request) command transfer history c', request.command? = some (command, transfer) →
        Execution (request.perform.run c) history ((), c') →
          Spinning base command output.drive c.recording output.motors histories.flatten history) ∧
      ∀ history c', Execution (Operation.reset.run c) history ((), c') →
        ∀ value, ⟨.output (Port.digitalOutput base) value, ()⟩ ∈ history →
          (DigitalOutput.decode value).motors = output.motors := by
  have hidling := h.idling
  refine ⟨hidling.due, _, hidling.output, ?_⟩
  simp only [DigitalOutput.decode_encode]
  constructor
  · intro request command transfer history c' hcommand hexec
    obtain ⟨u, hu, hspinning⟩ := hexec.recorded_after (ensures_request_spinning hcommand hidling)
    obtain rfl := List.append_cancel_left hu
    exact hspinning
  · intro history c' hexec value hmem
    have hreset : Operation.Keeps (minded base (.running c.shadow.output.motors c.drive []))
        (Idling base c.shadow.output.motors c.drive) Operation.reset := idling_reset fun _ => id
    exact writes_of_accepts (hexec.heard (hreset c _ hidling)).1 hmem

/-- Somebody leaves a result half read before the first command: its motor is started, the controller is reset, and
then the command goes out. -/
theorem addressed_drive_spins_reset :
    let s := Session.acts Simulated.machine 0x3F0 { machine := {} } [.discover (some 6) (some 2)]
    ∃ c history c' before later, s.controller = some c ∧
      Execution ((Request.execute .recalibrate).perform.run c) history ((), c') ∧
      history = before ++ ⟨.output (Port.data 0x3F0) Opcode.recalibrate, ()⟩ :: later ∧
      before.any (fun e => e.call == .output (Port.digitalOutput 0x3F0) 0x18) ∧
      (∃ output ∈ lastWritten (Port.digitalOutput 0x3F0) (s.histories.flatten ++ before), Driving .a (.decode output)) ∧
      Started 0x3F0 .a before := by
  intro s
  have hrun : Run 0x3F0 s.histories s.controller := Session.run_acts _ _ _ .start
  have hfacts : (s.controller.map fun c =>
      let history := ((Request.execute .recalibrate).perform.run c).history Simulated.machine s.machine.abandonResult
      let before := history.takeWhile fun e => e.call != .output (Port.data 0x3F0) Opcode.recalibrate
      let w := Wire.heard 0x3F0 (s.histories.flatten ++ before)
      (lastWritten (Port.digitalOutput 0x3F0) s.histories.flatten, w.due, w.command,
        (history.dropWhile fun e => e.call != .output (Port.data 0x3F0) Opcode.recalibrate).head?.map (·.call),
        before.any fun e => e.call == .output (Port.digitalOutput 0x3F0) 0x18)) =
      some (some 0x0C, 0, [], some (.output (Port.data 0x3F0) Opcode.recalibrate), true) := by decide +kernel
  obtain ⟨c, hc, hfacts⟩ := Option.map_eq_some_iff.mp hfacts
  have hexec := Program.execution_run Simulated.machine ((Request.execute .recalibrate).perform.run c)
    s.machine.abandonResult
  rw [hc] at hrun
  obtain ⟨-, submitted, hsubmitted, hspins, -⟩ := addressed_drive_spins hrun
  generalize ((Request.execute .recalibrate).perform.run c).history Simulated.machine _ = history at hfacts hexec
  have hsplit := List.takeWhile_append_dropWhile (l := history)
    (p := fun e => e.call != .output (Port.data 0x3F0) Opcode.recalibrate)
  simp only [hsubmitted, Prod.mk.injEq, Option.some.injEq] at hfacts
  obtain ⟨rfl, hdue, hcommand, hopcode, hreset⟩ := hfacts
  generalize (history.takeWhile fun e => e.call != .output (Port.data 0x3F0) Opcode.recalibrate) = before at *
  generalize (history.dropWhile fun e => e.call != .output (Port.data 0x3F0) Opcode.recalibrate) = rest at *
  match rest, hopcode with
  | ⟨call, reply⟩ :: later, hopcode =>
    obtain rfl : call = .output (Port.data 0x3F0) Opcode.recalibrate := Option.some.inj hopcode
    have hspells : (Wire.heard 0x3F0 (s.histories.flatten ++ before)).Spells Opcode.recalibrate [Opcode.recalibrate] :=
      ⟨hdue, by rw [hcommand]; rfl, by decide⟩
    obtain ⟨-, hdriving, hstarted⟩ := (hspins _ .recalibrate none _ _ rfl hexec).addressed before _ later _
      hsplit.symm hspells
    exact ⟨c, history, _, before, later, hc, hexec, hsplit.symm, hreset, hdriving, hstarted rfl⟩

end Diskette
