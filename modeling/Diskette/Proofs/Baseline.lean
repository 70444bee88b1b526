import Diskette.Machine.Scripted
import Diskette.Proofs.Handshake
import Diskette.Proofs.Standing

/-!
The state after a failure. Whatever has gone wrong in an accepted command, and wherever, the driver and
the controller are left alike: reset, disarmed, with the channel masked and the registers as the
command found them but for the motor it needs and a path that a storm has taken away.
-/
namespace Diskette

variable {base : UInt16} {c c' : Controller} {h t : History Platform}
  {command : Command} {transfer : Option Transfer} {cause : Failure}

/-- A command that is not refused: valid, with a buffer for its payload if it has one, and the bounce
buffer large enough for it. -/
structure Acceptable (command : Command) (transfer : Option Transfer) (h : History Platform) :
    Prop where
  valid : command.validate = .ok ()
  payload : match transfer with
    | none => command.transfer? = none
    | some t => (∃ span, t.Fits command span) ∧
      ∀ size, ⟨.memory .bounceSize, size⟩ ∈ h → t.length ≤ size

theorem Acceptable.before {later : History Platform}
    (ha : Acceptable command transfer (h ++ later)) : Acceptable command transfer h := by
  refine ⟨ha.valid, ?_⟩
  have hpayload := ha.payload
  cases transfer with
  | none => exact hpayload
  | some t => exact ⟨hpayload.1, fun size hsize => hpayload.2 size (List.mem_append_left later hsize)⟩

/-- The command breaks off at the end of this history, with nothing done about it yet. -/
def BreaksOff (command : Command) (transfer : Option Transfer) (c : Controller) (cause : Failure)
    (c' : Controller) (h : History Platform) : Prop :=
  ∃ prelude bytes attempt early delivered, h = prelude ++ attempt ∧
    Execution ((Operation.prepare command transfer).run c) prelude (.ok bytes, c) ∧
    Execution ((Operation.undertake command bytes transfer).run c) attempt
      (⟨early, .error cause, delivered⟩, c')

/-- The reset line is asserted, for a second at least, and released again. -/
def Pulsed (base : UInt16) (h : History Platform) : Prop :=
  ∃ before asserted ms released later,
    h = before ++ ⟨.output (Port.digitalOutput base) asserted, ()⟩ :: ⟨.delay ms, ()⟩ ::
      ⟨.output (Port.digitalOutput base) released, ()⟩ :: later ∧
    (DigitalOutput.decode asserted).resetAsserted = true ∧ 1000 ≤ ms ∧
    (DigitalOutput.decode released).resetAsserted = false

/-- The last byte that a port was written. -/
def LastWrite (port : UInt16) (value : UInt8) (h : History Platform) : Prop :=
  ∃ before later, h = before ++ ⟨.output port value, ()⟩ :: later ∧
    ∀ e ∈ later, ∀ other, e.call ≠ .output port other

structure Baseline (command : Command) (transfer : Option Transfer) (c : Controller)
    (cause : Failure) (c' : Controller) (h : History Platform) : Prop where
  causedReset : cause.causedReset
  phase : c'.phase = .faulted
  expectation : c'.expectation = .idle
  specified : c'.specified = none ∨ c'.specified = some c'.path
  pulsed : ∃ attempt recovery c₁, h = attempt ++ recovery ∧
    BreaksOff command transfer c cause c₁ attempt ∧ Pulsed c.base recovery
  masked : ∀ channel ∈ c.channel, ∃ before later,
    h = before ++ ⟨.channel channel .mask, ()⟩ :: later ∧
      ∀ e ∈ later, e.call ≠ .channel channel .unmask
  matched : Matched h
  /-- Only a storm takes the path away. -/
  path : c'.path = c.path ∨ c.path = .channel ∧ c'.path = .port ∧
    ∃ line ∈ c.line, ⟨.memory (.degraded line.id), true⟩ ∈ h
  rate : c'.shadow.rate = c.shadow.rate
  output : c'.shadow.output =
    let output := c.shadow.output
    { output with
      motors := if command.needsMotor then output.motors.set c.drive true else output.motors
      gate := output.gate && c'.path == c.path }
  lastOutput : LastWrite (Port.digitalOutput c.base) c'.shadow.output.encode h
  lastRate : LastWrite (Port.configControl c.base) c'.shadow.rate.encode h

theorem ensures_prepare_acceptable : Operation.Ensures recorded
    (Operation.prepare command transfer) (fun r c' t' => c' = c ∧
      (Acceptable command transfer t' → ∃ bytes, r = .ok bytes)) c [] := by
  have haccept : (Operation.accept command transfer).Ensures recorded
      (fun r t' => Acceptable command transfer t' → r = .ok ()) [] := by
    unfold Operation.accept
    split
    · rename_i hsome
      intro ha
      have hnone : command.transfer? = none := ha.payload
      simp [hnone] at hsome
    · rename_i hnone
      rintro ⟨-, ⟨span, hfits⟩, -⟩
      simp [hfits.data] at hnone
    · refine Program.ensures_recorded.mpr fun size ha => ?_
      exact Transfer.validate_eq_ok_iff.mpr ⟨ha.payload.1, ha.payload.2 size (by simp)⟩
    · exact fun _ => rfl
  simp only [Operation.prepare, Operation.ensures_bind, Operation.ensures_lift]
  apply haccept.mono
  rintro (cause | _) t' hr
  · exact ⟨rfl, fun ha => absurd (hr ha) (by simp)⟩
  · refine ⟨rfl, fun ha => ⟨_, Command.encode_eq_ok_iff.mpr ⟨ha.valid, rfl⟩⟩⟩

/-- A failed command is an attempt that breaks off, and then the recovery. -/
theorem breaksOff_of_failure {delivered : List UInt8}
    (hexec : Execution ((Operation.perform command transfer).run c) h ((.error cause, delivered), c'))
    (ha : Acceptable command transfer h) :
    ∃ attempt recovery c₁, h = attempt ++ recovery ∧
      BreaksOff command transfer c cause c₁ attempt ∧
      Execution ((Operation.recover command cause).run c₁) recovery ((), c') := by
  obtain ⟨prelude, t₁, prepared, c₁, rfl, hprepare, hrest⟩ := hexec.of_operation_bind
  have hprepared := hprepare.recorded ensures_prepare_acceptable
  obtain rfl : c₁ = c := hprepared.1
  obtain ⟨bytes, rfl⟩ : ∃ bytes, prepared = .ok bytes := hprepared.2 ha.before
  obtain ⟨attempt, t₂, pass, c₂, rfl, hundertake, hend⟩ := Execution.of_operation_bind hrest
  obtain ⟨early, outcome, passed⟩ := pass
  cases outcome with
  | ok report =>
    obtain ⟨t₃, t₄, report', c₃, -, -, hdone⟩ := Execution.of_operation_bind hend
    obtain ⟨-, hresult⟩ := Execution.of_done hdone
    simp at hresult
  | error cause' =>
    obtain ⟨recovery, t₄, ⟨⟩, c₃, rfl, hrecover, hdone⟩ := Execution.of_operation_bind hend
    obtain ⟨rfl, hresult⟩ := Execution.of_done hdone
    simp only [Prod.mk.injEq, Except.error.injEq] at hresult
    obtain ⟨⟨rfl, rfl⟩, rfl⟩ := hresult
    refine ⟨prelude ++ attempt, recovery, c₂, by simp, ?_, hrecover⟩
    exact ⟨prelude, bytes, attempt, early, delivered, rfl, hprepare, hundertake⟩

theorem pulsed_of_recovery (hcalls : RecoveryCalls command cause c t)
    (hc : c.shadow.output.resetAsserted = false) : Pulsed c.base t := by
  obtain ⟨u, rfl, settle, rest, rfl, -⟩ := hcalls
  have hhold : (1000 : UInt32) ≤ Operation.resetHold := by decide
  refine ⟨⟨.log c.base (.failed command cause), ()⟩ :: maskCalls c.channel ++
    [⟨.log c.base .resetting, ()⟩], { c.shadow.output with resetAsserted := true }.encode,
    Operation.resetHold, c.shadow.output.encode, settle ++ rewrite c.shadow ++ rest, ?_, ?_, hhold, ?_⟩
  · simp [pulse, Controller.base]
  · rw [DigitalOutput.decode_encode]
  · rw [DigitalOutput.decode_encode, hc]

theorem not_unmask_of_reset {s : Shadow} (hcalls : ResetCalls s t) {e : Exchange Platform}
    (he : e ∈ t) (channel : UInt8) : e.call ≠ .channel channel .unmask := by
  obtain ⟨settle, rest, rfl, haside⟩ := hcalls
  have hquiet : ∀ e ∈ settle ++ rest, e.call ≠ .channel channel .unmask := by
    intro e he hcall
    have hcalled := haside e he
    rw [hcall] at hcalled
    exact hcalled rfl
  simp only [List.mem_append, pulse, rewrite, List.mem_cons, List.not_mem_nil, or_false] at he
  rcases he with ((((rfl | rfl | rfl) | hsettle) | (rfl | rfl)) | hrest)
  case inl.inl.inr => exact hquiet e (List.mem_append_left rest hsettle)
  case inr => exact hquiet e (List.mem_append_right settle hrest)
  all_goals rintro ⟨⟩

theorem masked_of_recovery (hcalls : RecoveryCalls command cause c t) {channel : UInt8}
    (hchannel : c.channel = some channel) :
    ∃ before later, t = before ++ ⟨.channel channel .mask, ()⟩ :: later ∧
      ∀ e ∈ later, e.call ≠ .channel channel .unmask := by
  obtain ⟨u, rfl, hreset⟩ := hcalls
  refine ⟨[⟨.log c.base (.failed command cause), ()⟩], ⟨.log c.base .resetting, ()⟩ :: u, ?_, ?_⟩
  · rw [hchannel]
    rfl
  · intro e he
    rcases List.mem_cons.mp he with rfl | he
    · nofun
    · exact not_unmask_of_reset hreset he channel

theorem LastWrite.append {port : UInt16} {value : UInt8} (hlast : LastWrite port value t)
    (u : History Platform) : LastWrite port value (u ++ t) := by
  obtain ⟨before, later, rfl, hlater⟩ := hlast
  exact ⟨u ++ before, later, (List.append_assoc ..).symm, hlater⟩

theorem not_output_of_aside {e : Exchange Platform} {port : UInt16} (haside : Aside base e.call)
    (hport : port ≠ Port.data base) (other : UInt8) : e.call ≠ .output port other := by
  intro hcall
  rw [hcall] at haside
  exact hport haside

theorem lastOutput_of_recovery (hcalls : RecoveryCalls command cause c t) :
    LastWrite (Port.digitalOutput c.base) c.shadow.output.encode t := by
  obtain ⟨_, rfl, settle, rest, rfl, haside⟩ := hcalls
  refine ⟨⟨.log c.base (.failed command cause), ()⟩ :: maskCalls c.channel ++
    ⟨.log c.base .resetting, ()⟩ :: pulse c.shadow ++ settle,
    ⟨.output (Port.configControl c.base) c.shadow.rate.encode, ()⟩ :: rest, ?_, ?_⟩
  · simp [rewrite, Controller.base]
  · intro e he other
    rcases List.mem_cons.mp he with rfl | he
    · simp [Wire.configControl_ne_digitalOutput]
    · exact not_output_of_aside (haside e (List.mem_append_right settle he))
        Wire.digitalOutput_ne_data other

theorem lastRate_of_recovery (hcalls : RecoveryCalls command cause c t) :
    LastWrite (Port.configControl c.base) c.shadow.rate.encode t := by
  obtain ⟨_, rfl, settle, rest, rfl, haside⟩ := hcalls
  refine ⟨⟨.log c.base (.failed command cause), ()⟩ :: maskCalls c.channel ++
    ⟨.log c.base .resetting, ()⟩ :: pulse c.shadow ++ settle ++
    [⟨.output (Port.digitalOutput c.base) c.shadow.output.encode, ()⟩], rest, ?_, ?_⟩
  · simp [rewrite, Controller.base]
  · intro e he other
    exact not_output_of_aside (haside e (List.mem_append_right settle he))
      Wire.configControl_ne_data other

/-- The state in which a command finds the controller, but for what it and a storm do to it. -/
theorem spunUp_of_weathered (command : Command) {c₀ : Controller} (h : Weathered c c₀ t) :
    (c₀.spunUp command).shadow.base = c.shadow.base ∧
      (c₀.spunUp command).shadow.rate = c.shadow.rate ∧
      (c₀.spunUp command).channel = c.channel ∧ (c₀.spunUp command).path = c₀.path ∧
      (c₀.spunUp command).shadow.output = { c.shadow.output with
        motors := if command.needsMotor then c.shadow.output.motors.set c.drive true
          else c.shadow.output.motors
        gate := c.shadow.output.gate && c₀.path == c.path } := by
  rcases h with rfl | ⟨hpath, rfl, -⟩
  · unfold Controller.spunUp
    split <;> simp [DigitalOutput.setMotor]
  · unfold Controller.spunUp
    split <;> simp [DigitalOutput.setMotor, Controller.unhooked, Controller.drive, hpath]

theorem matched_of_perform {a : Except Failure Report × List UInt8}
    (hexec : Execution ((Operation.perform command transfer).run c) h (a, c')) : Matched h := by
  have hrests : Wire.Rests [] ({} : Wire) := ⟨rfl, rfl⟩
  obtain ⟨haccepts, hend⟩ := hexec.heard (Wire.tidy_perform command transfer [] c {} ⟨rfl, hrests⟩)
  exact closes_of_accepts haccepts hend.rests.windows

theorem baseline_of_execution (hc : Standing c) {delivered : List UInt8}
    (hexec : Execution ((Operation.perform command transfer).run c) h ((.error cause, delivered), c'))
    (ha : Acceptable command transfer h) : Baseline command transfer c cause c' h := by
  obtain ⟨attempt, recovery, c₁, rfl, hbreaks, hrecover⟩ := breaksOff_of_failure hexec ha
  obtain ⟨prelude, bytes, pass, early, _, rfl, -, hundertake⟩ := id hbreaks
  obtain ⟨hhard, c₀, hweathered, hc₁⟩ :=
    hundertake.recorded (ensures_undertake command bytes transfer hc)
  obtain ⟨hbase, hrate, hchannel, hpath, houtput⟩ := spunUp_of_weathered command hweathered
  have hstanding : Standing c₁ := ((hweathered.standing hc).spunUp command).of_setting hc₁
  obtain ⟨hrecovered, recovery, rfl, hcalls⟩ :=
    hrecover.recorded (ensures_recover command cause hstanding.outOfReset)
  have hshadow₁ := Controller.shadow_of_setting hc₁
  have hchannel₁ : c₁.channel = c.channel := (Controller.channel_of_setting hc₁).trans hchannel
  have hbase₁ : c₁.base = c.base := (congrArg Shadow.base hshadow₁).trans hbase
  have hshadow' := Controller.shadow_of_setting hrecovered.restarted.setting
  have hpath' : c'.path = c₀.path :=
    (Controller.path_of_setting (hrecovered.restarted.setting.trans hc₁)).trans hpath
  refine
    { causedReset := hhard
      phase := hrecovered.phase
      expectation := hrecovered.restarted.expectation
      specified := hrecovered.restarted.specified
      pulsed := ?pulsed
      masked := ?masked
      matched := matched_of_perform hexec
      path := ?path
      rate := ?rate
      output := ?output
      lastOutput := ?lastOutput
      lastRate := ?lastRate }
  case pulsed =>
    exact ⟨_, _, c₁, rfl, hbreaks, hbase₁ ▸ pulsed_of_recovery hcalls hstanding.outOfReset⟩
  case masked =>
    intro channel hmem
    obtain ⟨before, later, hsplit, hlater⟩ := masked_of_recovery hcalls (hchannel₁.trans hmem)
    exact ⟨prelude ++ pass ++ before, later, by simp [hsplit], hlater⟩
  case path =>
    rw [hpath']
    rcases hweathered with rfl | ⟨htaken, rfl, line, hline, hdegraded⟩
    · exact .inl rfl
    · exact .inr ⟨htaken, rfl, line, hline, by simp [hdegraded]⟩
  case rate => rw [hshadow', hshadow₁, hrate]
  case output => rw [hshadow', hshadow₁, houtput, hpath']
  case lastOutput =>
    rw [hshadow', ← hbase₁]
    exact (lastOutput_of_recovery hcalls).append _
  case lastRate =>
    rw [hshadow', ← hbase₁]
    exact (lastRate_of_recovery hcalls).append _

/-- Wherever a run of the driver has got to, and whatever the platform does, an accepted command that
fails ends in the baseline. -/
theorem fault_baseline {histories : List (History Platform)} (hrun : Run base histories (some c))
    (command : Command) :
    (∀ h cause c', Acceptable command none h →
      Execution ((Operation.execute command).run c) h (.error cause, c') →
        Baseline command none c cause c' h) ∧
    ∀ transfer h cause buffer c', Acceptable command (some transfer) h →
      Execution ((Operation.executeWith command transfer).run c) h ((.error cause, buffer), c') →
        Baseline command (some transfer) c cause c' h := by
  have hc : Standing c := hrun.standing c rfl
  constructor
  · intro h cause c' ha hexec
    obtain ⟨delivered, hperform⟩ := hexec.of_execute
    exact baseline_of_execution hc hperform ha
  · intro transfer h cause buffer c' ha hexec
    obtain ⟨delivered, hperform, -⟩ := hexec.of_executeWith
    exact baseline_of_execution hc hperform ha

/-- A controller that withholds its results. -/
theorem fault_baseline_version :
    let s := Session.acts Simulated.machine 0x3F0
      { machine := { faults := { withholdResults := true } } } [.discover (some 6) (some 2)]
    ∃ c ∈ s.controller, ∃ h cause c',
      Execution ((Operation.execute .version).run c) h (.error cause, c') ∧
        Acceptable .version none h ∧ Baseline .version none c cause c' h := by
  intro s
  have hrun : Run 0x3F0 s.histories s.controller := Session.run_acts _ _ _ .start
  -- From then on a script answers, which is quicker: it always takes bytes, and never has a result.
  have hoks : s.controller.map (fun c =>
      (((Operation.execute .version).run c).run Scripted.machine {}).1.1.isOk) = some false := by
    decide +kernel
  obtain ⟨c, hc, hfails⟩ := Option.map_eq_some_iff.mp hoks
  have hexec := Program.execution_run Scripted.machine ((Operation.execute .version).run c) {}
  generalize (((Operation.execute .version).run c).run Scripted.machine {}).1 = r at hexec hfails
  obtain ⟨cause | report, c'⟩ := r
  · have ha : ∀ h, Acceptable .version none h := fun _ => ⟨rfl, rfl⟩
    exact ⟨c, hc, _, cause, c', hexec, ha _, (fault_baseline (hc ▸ hrun) .version).1 _ _ _ (ha _) hexec⟩
  · exact absurd hfails (by simp [Except.isOk, Except.toBool])

end Diskette
