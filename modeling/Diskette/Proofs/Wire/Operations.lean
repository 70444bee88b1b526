import Diskette.Proofs.Upkeep
import Diskette.Proofs.Wire.Fifo

/-!
The operations of the driver, heard on the wire. Each leaves the windows as they were and no payload
due; after a failure a payload may be due still, until the controller has been reset.
-/
namespace Diskette.Wire

open Simulated (Order)

variable {base : UInt16} {windows : List Bool} {α : Type} {c : Controller} {w : Wire}

/-- A controller at the base between two exchanges on the wire. -/
structure Tidy (base : UInt16) (windows : List Bool) (c : Controller) (w : Wire) : Prop where
  base_eq : c.base = base
  rests : Rests windows w

/-- A controller at the base after a failure. -/
structure Halted (base : UInt16) (windows : List Bool) (c : Controller) (w : Wire) : Prop where
  base_eq : c.base = base
  windows_eq : w.windows = windows

theorem Tidy.halted (h : Tidy base windows c w) : Halted base windows c w :=
  ⟨h.base_eq, h.rests.windows⟩

abbrev OperationTidy (base : UInt16) (op : Operation α) : Prop :=
  ∀ windows, Operation.Keeps (tapped base) (Tidy base windows) op

abbrev AttemptTidy (base : UInt16) (a : Attempt α) : Prop :=
  ∀ windows, Attempt.Keeps (tapped base) (Tidy base windows) (fun _ => Halted base windows) a

abbrev DeliveryTidy (base : UInt16) (d : Delivery α) : Prop :=
  ∀ windows, Delivery.Keeps (tapped base) (Tidy base windows) (fun _ => Halted base windows) d

theorem quiet_mono {p : Routine α} (hp : p.Only (Quiet base)) (h : Tidy base windows c w) :
    p.Ensures (tapped base) (fun _ => Tidy base windows c) w :=
  (rests_quiet hp h.rests).mono fun _ _ hw => ⟨h.base_eq, hw⟩

theorem tidy_lift {p : Routine α} (hp : p.Only (Quiet base)) :
    OperationTidy base (liftM p : Operation α) :=
  fun _ => .lift fun _ _ => quiet_mono hp

theorem tidy_log (event : Log.Event) : OperationTidy base (Operation.log event) :=
  fun _ => .get_bind fun c _ h => by
    rw [Operation.ensures_lift]
    exact quiet_mono (.perform (by trivial)) h

theorem tidy_setPhase (phase : Phase) : OperationTidy base (Operation.setPhase phase) :=
  fun _ => .modify fun _ _ h => ⟨h.base_eq, h.rests⟩

theorem rests_output (value : UInt8) (h : Rests windows w) :
    (Platform.output (Port.digitalOutput base) value).Ensures (tapped base)
      (fun _ => Rests windows) w := by
  refine ⟨fun hport => (digitalOutput_ne_data hport).elim, ?_⟩
  rintro - w' rfl
  simp only [listener, hear, digitalOutput_ne_data, if_false]
  split
  · exact ⟨h.windows, rfl⟩
  · exact ⟨h.windows, h.due⟩

/-- Any change of the output register is written to its port. -/
theorem tidy_writeOutput (f : Shadow → DigitalOutput) :
    OperationTidy base (Operation.shadowed fun s => s.writeOutput (f s)) := by
  rintro windows c w ⟨rfl, hw⟩
  rw [Operation.ensures_shadowed]
  exact Program.ensures_bind.mpr ((rests_output _ hw).mono fun _ _ h => ⟨rfl, h⟩)

theorem tidy_setRate (rate : DataRate) : OperationTidy base (Operation.setRate rate) := by
  rintro windows c w ⟨rfl, hw⟩
  rw [Operation.setRate, Operation.ensures_shadowed]
  have hquiet : Quiet c.base (.output (Port.configControl c.shadow.base) rate.encode) :=
    ⟨configControl_ne_data, configControl_ne_digitalOutput⟩
  exact Program.ensures_bind.mpr ((quiet_mono (.perform hquiet) ⟨rfl, hw⟩).mono
    fun _ _ h => ⟨rfl, h.rests⟩)

theorem tidy_modify {f : Controller → Controller}
    (hf : ∀ c, (f c).base = c.base) : OperationTidy base (modify f) :=
  fun _ => .modify fun c _ h => ⟨(hf c).trans h.base_eq, h.rests⟩

theorem quiet_uninterrupted {p : Routine α} (hp : p.Only (Quiet base))
    (h : Tidy base windows c w) :
    (Platform.uninterrupted p).Ensures (tapped base) (fun _ => Tidy base windows c) w := by
  refine ensures_uninterrupted fun b => ?_
  apply (ensures_still hp _).mono
  intro a w' hstill
  exact ⟨hstill.windows, h.base_eq, h.rests.windows, hstill.due.trans h.rests.due⟩

theorem tidy_unbind : OperationTidy base Operation.unbind := by
  intro windows c w h
  simp only [Operation.unbind, Operation.ensures_bind, Operation.ensures_get]
  split
  · simp only [Operation.ensures_bind, Operation.ensures_lift, Operation.ensures_modify]
    apply (quiet_uninterrupted (.perform (by trivial)) h).mono
    exact fun _ _ h' => ⟨h'.base_eq, h'.rests⟩
  · exact h

theorem tidy_maskIfHooked : OperationTidy base Operation.maskIfHooked := by
  intro windows c w h
  simp only [Operation.maskIfHooked, Operation.ensures_bind, Operation.ensures_get]
  split
  · exact tidy_lift (.perform (by trivial)) windows c w h
  · exact h

theorem tidy_closeGate : OperationTidy base Operation.closeGate :=
  fun windows => .get_bind fun c w h => by
    rw [Operation.ensures_ite]
    split
    · exact tidy_writeOutput _ windows c w h
    · exact h

theorem tidy_logPolled : OperationTidy base Operation.logPolled :=
  fun windows => .get_bind fun c w h => by
    rw [Operation.ensures_ite]
    split
    · exact tidy_log _ windows c w h
    · exact h

theorem tidy_disableDma : OperationTidy base Operation.disableDma :=
  fun windows =>
    .bind (tidy_maskIfHooked windows) fun _ =>
    .bind (tidy_closeGate windows) fun _ =>
    .bind (tidy_unbind windows) fun _ =>
    .bind (tidy_logPolled windows) fun _ => tidy_modify (by exact fun _ => rfl) windows

theorem tidy_hookLine (line : Line) : OperationTidy base (Operation.hookLine line) := by
  intro windows
  refine .bind (tidy_lift (.perform (by trivial)) windows) fun _ => ?_
  refine .bind (tidy_writeOutput _ windows) fun _ => ?_
  refine .bind (.lift fun c w h => quiet_uninterrupted (.perform (by trivial)) h) fun prior => ?_
  refine .bind (tidy_modify (by exact fun _ => rfl) windows) fun _ => ?_
  refine .bind (tidy_lift (.perform (by trivial)) windows) fun _ => ?_
  refine .bind (tidy_lift (.perform (by trivial)) windows) fun _ => ?_
  refine .bind (tidy_modify (by exact fun _ => rfl) windows) fun _ => ?_
  exact tidy_log _ windows

/-- A path that cannot be taken leaves everything as it was. -/
theorem tidy_enableDma : Attempt.Keeps (tapped base) (Tidy base windows)
    (fun _ => Tidy base windows) Operation.enableDma := by
  intro c w h
  simp only [Operation.enableDma, Attempt.ensures_bind, Attempt.ensures_get, Attempt.ensures_ite,
    Attempt.ensures_throw]
  split
  · exact h
  split
  · exact h
  · simp only [Attempt.ensures_bind, Attempt.ensures_ite, Attempt.ensures_throw,
      Attempt.ensures_pure, Attempt.ensures_lift, Attempt.ensures_operation]
    apply (quiet_mono (.perform (by trivial)) h).mono
    intro stormy w' h'
    split
    · exact h'
    split
    · exact h'
    · exact tidy_hookLine _ windows c w' h'

theorem tidy_abandonLine (line : Line) : OperationTidy base (Operation.abandonLine line) :=
  fun windows => .get_bind fun c w h => by
    rw [Operation.ensures_ite]
    split
    · exact Operation.Keeps.bind (tidy_log _ windows) (fun _ => tidy_disableDma windows) c w h
    · exact h

theorem tidy_noticeStorm : OperationTidy base Operation.noticeStorm := by
  intro windows c w h
  simp only [Operation.noticeStorm, Operation.ensures_bind, Operation.ensures_get]
  split
  · exact h
  · refine Operation.Keeps.bind (tidy_lift (.perform (by trivial)) windows) (fun stormy => ?_) c w h
    refine .ite (fun _ => ?_) fun _ => .pure
    exact .bind (tidy_abandonLine _ windows) fun _ => .get_bind fun _ _ h => h

theorem tidy_maskChannel : OperationTidy base Operation.maskChannel := by
  intro windows c w h
  simp only [Operation.maskChannel, Operation.ensures_bind, Operation.ensures_get]
  split
  · exact tidy_lift (.perform (by exact Channel.mask_ne_unmask)) windows c w h
  · exact h

theorem tidy_release : OperationTidy base Operation.release :=
  fun windows =>
    .bind (tidy_writeOutput _ windows) fun _ =>
    .bind (tidy_maskIfHooked windows) fun _ =>
    .bind (tidy_unbind windows) fun _ =>
    .bind (tidy_maskChannel windows) fun _ =>
    .bind (tidy_modify (by exact fun _ => rfl) windows) fun _ => tidy_log _ windows

theorem payload_bytes {command : Command} (hvalid : command.validate = .ok ()) (drive : Drive)
    (recording : RecordingMode) : (Order.ofBytes (command.bytes drive recording)).payload =
      match command.transfer? with
      | some (span, _) => span.byteLength
      | none => 0 := by
  rw [command.ofBytes_bytes hvalid]
  cases command with
  | read span => exact SectorSpan.byteLength_extent hvalid drive
  | write span => exact SectorSpan.byteLength_extent hvalid drive
  | _ => rfl

theorem tidy_transact {command : Command} (n : ResultLength) (hvalid : command.validate = .ok ())
    (hdata : command.transfer? = none) (h : Tidy base windows c w) :
    (Fifo.transact c.base (command.bytes c.drive c.recording) n).Ensures (tapped base)
      (fun _ => Tidy base windows c) w := by
  have hpayload : (Order.ofBytes (command.bytes c.drive c.recording)).payload = 0 := by
    rw [payload_bytes hvalid, hdata]
  have hbase := h.base_eq
  rw [hbase]
  apply (rests_transact n (framed_bytes _ _ _) hpayload h.rests).mono
  exact fun _ _ hw => ⟨hbase, hw⟩

/-- A failure to specify the path breaks nothing off. -/
theorem tidy_specify (path : DataPath) : Attempt.Keeps (tapped base) (Tidy base windows)
    (fun _ => Tidy base windows) (Operation.specify path) := by
  intro c w h
  simp only [Operation.specify, Attempt.ensures_bind, Attempt.ensures_get, Attempt.ensures_of]
  apply (tidy_transact _ (by cases path <;> rfl) rfl h).mono
  rintro (cause | result) w' h'
  · exact h'
  · exact ⟨h'.base_eq, h'.rests⟩

theorem tidy_drain (count : Nat) : OperationTidy base (Operation.drain count) := by
  intro windows
  induction count with
  | zero => exact .pure
  | succ count ih =>
    intro c w h
    simp only [Operation.drain, Operation.ensures_bind, Operation.ensures_get,
      Operation.ensures_lift]
    apply (tidy_transact _ rfl rfl h).mono
    rintro (cause | result) w' h'
    · exact h'
    · simp only [Operation.ensures_ite]
      split
      · exact h'
      · exact Operation.Keeps.bind (tidy_log _ windows) (fun _ => ih) c w' h'

theorem looks_mono {p : Routine α} (hp : p.Only (Fifo.Looks c.base)) (h : Tidy base windows c w) :
    p.Ensures (tapped base) (fun _ => Tidy base windows c) w := by
  rw [h.base_eq] at hp
  exact quiet_mono (hp.mono fun _ => quiet_of_looks) h

theorem tidy_awaitRestart : OperationTidy base Operation.awaitRestart :=
  fun windows => .get_bind fun c w h => by
    simp only [Operation.ensures_bind, Operation.ensures_lift]
    apply (looks_mono (Fifo.only_awaitStatus _ _) h).mono
    intro ready w' h'
    rw [Operation.ensures_ite]
    split
    · exact h'
    · exact tidy_log _ windows c w' h'

theorem tidy_mainStatus : OperationTidy base Operation.mainStatus :=
  fun _ => .get_bind fun c w h => by
    rw [Operation.ensures_lift]
    exact looks_mono Fifo.only_readStatus h

theorem tidy_acknowledgeLine : OperationTidy base Operation.acknowledgeLine := by
  intro windows c w h
  simp only [Operation.acknowledgeLine, Operation.ensures_bind, Operation.ensures_get]
  split
  · exact tidy_lift (.perform (by trivial)) windows c w h
  · exact h

theorem tidy_respecify : OperationTidy base Operation.respecify :=
  fun windows => .get_bind fun c w h => by
    refine Operation.Keeps.bind (.run (tidy_specify c.path)) (fun r => ?_) c w h
    cases r with
    | ok => exact .pure
    | error cause => exact tidy_log _ windows

theorem halted_quiet {p : Routine α} (hp : p.Only (Quiet base)) (h : Halted base windows c w) :
    p.Ensures (tapped base) (fun _ => Halted base windows c) w :=
  (ensures_still hp w).mono fun _ _ hstill =>
    ⟨h.base_eq, hstill.windows.trans h.windows_eq⟩

theorem halted_log (event : Log.Event) (h : Halted base windows c w) :
    Operation.Ensures (tapped base) (Operation.log event) (fun _ => Halted base windows) c w := by
  rw [Operation.ensures_log]
  exact halted_quiet (.perform (by trivial)) h

/-- Asserting the reset line drops what a failed command has left due. -/
theorem mends_assertReset (h : Halted base windows c w) :
    Operation.Ensures (tapped base) (Operation.shadowed (·.setReset true))
      (fun _ => Tidy base windows) c w := by
  obtain ⟨rfl, hw⟩ := h
  rw [Operation.ensures_shadowed]
  refine ⟨fun hport => (digitalOutput_ne_data hport).elim, ?_⟩
  rintro - w' rfl
  refine ⟨rfl, ?_⟩
  simp only [listener, hear, Controller.base, digitalOutput_ne_data, if_false,
    DigitalOutput.decode_encode, and_self, if_true]
  exact ⟨hw, rfl⟩

theorem mends_pulseReset (h : Halted base windows c w) :
    Operation.Ensures (tapped base) Operation.pulseReset (fun _ => Tidy base windows) c w := by
  have hrelease : OperationTidy base (do
      Platform.delay Operation.resetHold
      Operation.shadowed (·.setReset false)) := fun windows =>
    .bind (tidy_lift (.perform (by trivial)) windows) fun _ => tidy_writeOutput _ windows
  exact Operation.ensures_bind.mpr ((mends_assertReset h).mono fun _ => hrelease windows)

theorem tidy_resync (h : Tidy base windows c w) :
    c.shadow.resync.Ensures (tapped base) (fun _ => Tidy base windows c) w := by
  obtain ⟨rfl, hw⟩ := h
  have hquiet : Quiet c.base (.output (Port.configControl c.shadow.base) c.shadow.rate.encode) :=
    ⟨configControl_ne_data, configControl_ne_digitalOutput⟩
  refine Program.ensures_bind.mpr ((rests_output _ hw).mono ?_)
  exact fun _ w' h' => quiet_mono (.perform hquiet) ⟨rfl, h'⟩

/-- A reset makes up for a failed command. -/
theorem mends_reset (h : Halted base windows c w) :
    Operation.Ensures (tapped base) Operation.reset (fun _ => Tidy base windows) c w := by
  have hrest : OperationTidy base (do
      Operation.awaitRestart
      let _ ← Operation.mainStatus
      (← get).shadow.resync
      Operation.drain 4
      Operation.acknowledgeLine
      modify fun c => { c with expectation := .idle, specified := none }
      Operation.respecify
      Operation.setPhase .ready) := by
    intro windows
    refine .bind (tidy_awaitRestart windows) fun _ => ?_
    refine .bind (tidy_mainStatus windows) fun _ => .get_bind fun c w h => ?_
    rw [Operation.ensures_bind, Operation.ensures_lift]
    refine (tidy_resync h).mono fun _ w' h' => ?_
    refine Operation.Keeps.bind (tidy_drain 4 windows) (fun _ => ?_) c w' h'
    refine .bind (tidy_acknowledgeLine windows) fun _ => ?_
    refine .bind (tidy_modify (by exact fun _ => rfl) windows) fun _ => ?_
    exact .bind (tidy_respecify windows) fun _ => tidy_setPhase _ windows
  refine Operation.ensures_bind.mpr ((halted_log _ h).mono fun _ c₁ w₁ h₁ => ?_)
  exact Operation.ensures_bind.mpr ((mends_pulseReset h₁).mono fun _ => hrest windows)

theorem tidy_reset : OperationTidy base Operation.reset := fun _ _ _ h => mends_reset h.halted

theorem tidy_startMotor (drive : Drive) : OperationTidy base (Operation.startMotor drive) :=
  fun windows => .get_bind fun c w h => by
    rw [Operation.ensures_ite]
    split
    · exact h
    · refine Operation.Keeps.bind (tidy_log _ windows) (fun _ => ?_) c w h
      refine .bind (tidy_writeOutput _ windows) fun _ => ?_
      exact tidy_lift (.perform (by trivial)) windows

theorem tidy_makeReceptive : OperationTidy base Operation.makeReceptive :=
  fun windows => .bind (tidy_mainStatus windows) fun _ =>
    .ite (fun _ => .bind (tidy_log _ windows) fun _ => tidy_reset windows) fun _ => .pure

theorem tidy_agreeOnPath : AttemptTidy base Operation.agreeOnPath :=
  fun windows => .get_bind fun c w h => by
    rw [Attempt.ensures_ite]
    split
    · exact h
    · exact (tidy_specify _).weaken (fun _ _ _ => Tidy.halted) c w h

theorem still_setUpChannel (load : Option Operation.ChannelLoad) (w : Wire) :
    (Operation.setUpChannel load).Ensures (tapped base) (fun _ w' => w'.windows = w.windows ∧
      w'.due = w.due ∧ w'.command = w.command ∧ w'.loaded = (w.loaded || load.isSome)) w := by
  cases load with
  | none => exact ⟨rfl, rfl, rfl, (Bool.or_false _).symm⟩
  | some l =>
    simp [Operation.setUpChannel, Channel.setUp, Platform.channel, Program.ensures_call,
      Listener.surroundings, listener, permits, hear]

theorem quiet_moved (channel : UInt8) (requested : Nat) :
    (Channel.moved channel requested).Only (Quiet base) :=
  .bind (.perform (by nofun)) fun _ => .bind (.perform (by nofun)) fun _ => .ite .done .done

theorem quiet_expectEnd (c : Controller) (interrupting : Bool) :
    (Operation.expectEnd c interrupting).Only (Quiet base) := by
  unfold Operation.expectEnd
  split
  · exact .bind (.perform (by trivial)) fun _ => .bind (.perform (by trivial)) fun _ => .done
  · exact .done

/-- What a command that has been sent leaves due. -/
theorem ensures_sendCommand {bytes : List UInt8} (interrupting : Bool) (load : Option Operation.ChannelLoad)
    (hframed : Framed bytes) (h : Tidy base windows c w) :
    Attempt.Ensures (tapped base) (Operation.sendCommand bytes interrupting load)
      (fun _ c' w' => Halted base windows c' w' ∧
        w'.due = if load.isSome then 0 else (Order.ofBytes bytes).payload)
      (fun _ => Halted base windows) c w := by
  have hbase := h.base_eq
  have hwindow : ∀ b, Program.Ensures (tapped base)
      (do
        Operation.setUpChannel load
        let expectation ← Operation.expectEnd c interrupting
        return (expectation, ← Fifo.send c.base bytes))
      (fun r w' => w'.windows = b :: w.windows ∧ (r.2 = .ok () →
        w'.due = if load.isSome then 0 else (Order.ofBytes bytes).payload)) (w.enter b) := by
    intro b
    refine Program.ensures_bind.mpr ((still_setUpChannel load (w.enter b)).mono ?_)
    rintro - w₁ ⟨hwindows, hdue, hcommand, hloaded⟩
    refine Program.ensures_bind.mpr ((ensures_still (quiet_expectEnd c interrupting) w₁).mono ?_)
    rintro expectation w₂ hstill
    have hopen : w₂.windows = b :: w.windows := hstill.windows.trans hwindows
    have hdue₂ : w₂.due = 0 := (hstill.due.trans hdue).trans h.rests.due
    have hsend : (Fifo.send base _).Ensures (tapped base) _ w₂ :=
      ensures_send hframed (hopen ▸ List.cons_ne_nil _ _) hdue₂ (hstill.command.trans hcommand)
    rw [hbase]
    refine Program.ensures_bind.mpr (hsend.mono ?_)
    rintro r w₃ ⟨hwindows₃, hr⟩
    refine ⟨hwindows₃.trans hopen, ?_⟩
    rintro rfl
    have hloaded₂ : w₂.loaded = load.isSome := hstill.loaded.trans hloaded
    rwa [hloaded₂] at hr
  simp only [Operation.sendCommand, Attempt.ensures_bind, Attempt.ensures_setPhase,
    Attempt.ensures_getThe, Attempt.ensures_lift]
  refine (ensures_uninterrupted fun b => (hwindow b).mono ?_)
  rintro ⟨expectation, sent⟩ w' ⟨hwindows, hsent⟩
  refine ⟨hwindows, ?_⟩
  simp only [Attempt.ensures_modify, Attempt.ensures_ofExcept]
  cases sent with
  | ok _ => exact ⟨⟨hbase, h.rests.windows⟩, hsent rfl⟩
  | error _ => exact ⟨hbase, h.rests.windows⟩

theorem tidy_sendCommand {bytes : List UInt8} (interrupting : Bool)
    (load : Option Operation.ChannelLoad) (hframed : Framed bytes)
    (hpayload : load.isSome ∨ (Order.ofBytes bytes).payload = 0) :
    AttemptTidy base (Operation.sendCommand bytes interrupting load) := by
  intro windows c w h
  refine (ensures_sendCommand interrupting load hframed h).mono ?_ fun _ _ _ => id
  rintro - c' w' ⟨h', hdue⟩
  refine ⟨h'.base_eq, h'.windows_eq, hdue.trans ?_⟩
  rcases hpayload with hload | hnone
  · exact if_pos hload
  · rw [hnone, ite_self]

theorem tidy_awaitEnd (ms : Nat) (settled : MainStatus → Bool) :
    AttemptTidy base (Operation.awaitEnd ms settled) := by
  intro windows c w h
  simp only [Operation.awaitEnd, Attempt.ensures_bind, Attempt.ensures_setPhase,
    Attempt.ensures_getThe, Attempt.ensures_lift]
  have hbase : Controller.base { c with phase := .awaitingCompletion } = base := h.base_eq
  have hpoll : (do return settled (← Fifo.readStatus base) : Routine Bool).Only (Quiet base) :=
    .bind (Fifo.only_readStatus.mono fun _ => quiet_of_looks) fun _ => .done
  rw [hbase]
  apply (quiet_mono (Expectation.only_wait (by trivial) (by intro _ _; trivial) hpoll _ _ _) h).mono
  rintro ⟨result, expectation⟩ w' h'
  rw [Attempt.ensures_modify]
  cases result with
  | timedOut => exact ⟨h'.base_eq, h'.rests.windows⟩
  | _ => exact ⟨h'.base_eq, h'.rests⟩

theorem tidy_awaitResult : AttemptTidy base Operation.awaitResult :=
  fun _ => .get_bind fun c w h => by
    rw [Attempt.ensures_of]
    apply (looks_mono Fifo.only_awaitResult h).mono
    rintro (_ | _) w' h'
    · exact h'.halted
    · exact h'

theorem tidy_awaitAnswer (n : ResultLength) : AttemptTidy base (Operation.awaitAnswer n) :=
  fun _ => .get_bind fun c w h => by
    rw [Attempt.ensures_of]
    apply (looks_mono (Fifo.only_awaitAnswer n) h).mono
    rintro (_ | _) w' h'
    · exact h'.halted
    · exact h'

theorem tidy_takeResult (n : ResultLength) : AttemptTidy base (Operation.takeResult n) := by
  intro windows c w h
  simp only [Operation.takeResult, Attempt.ensures_bind, Attempt.ensures_setPhase,
    Attempt.ensures_getThe, Attempt.ensures_of, Attempt.ensures_pure]
  have hbase : Controller.base { c with phase := .receivingResult } = base := h.base_eq
  rw [hbase]
  apply (rests_receive n h.rests).mono
  rintro (_ | result) w₁ h₁
  · exact ⟨h.base_eq, h₁.windows⟩
  · apply (rests_looks Fifo.only_finish h₁).mono
    rintro (_ | _) w₂ h₂
    · exact ⟨h.base_eq, h₂.windows⟩
    · exact ⟨h.base_eq, h₂⟩

theorem tidy_absorbStatus (result : ResultBytes (.exactly maxResult)) :
    OperationTidy base (Operation.absorbStatus result) := tidy_modify (by exact fun _ => rfl)

theorem tidy_checkStatus (kind : CommandKind) (result : ResultBytes (.exactly maxResult)) :
    AttemptTidy base (Operation.checkStatus kind result) := by
  intro windows c w h
  rw [Operation.checkStatus, Attempt.ensures_ite]
  split
  · exact h.halted
  · exact h

theorem tidy_senseHead : AttemptTidy base Operation.senseHead := by
  intro windows c w h
  simp only [Operation.senseHead, Attempt.ensures_bind, Attempt.ensures_getThe, Attempt.ensures_of,
    Attempt.ensures_modify, Attempt.ensures_ite, Attempt.ensures_throw, Attempt.ensures_pure]
  apply (tidy_transact _ rfl rfl h).mono
  rintro (_ | result) w' h'
  · exact h'.halted
  · dsimp only
    split
    · exact ⟨h'.base_eq, h'.rests.windows⟩
    · exact ⟨h'.base_eq, h'.rests⟩

theorem tidy_absorb (command : Command) (result : ResultBytes command.resultLength) :
    AttemptTidy base (Operation.absorb command result) := by
  intro windows
  cases command with
  | readId head =>
    exact .bind (.operation (tidy_absorbStatus result windows)) fun _ =>
      tidy_checkStatus _ result windows
  | specify timing path => exact .modify fun c _ h => ⟨h.base_eq, h.rests⟩
  | senseInterrupt => exact .operation (tidy_modify (by exact fun _ => rfl) windows)
  | senseDrive => exact .operation (tidy_modify (by exact fun _ => rfl) windows)
  | version => exact .operation (tidy_modify (by exact fun _ => rfl) windows)
  | _ => exact .pure

theorem tidy_runSeek {command : Command} {bytes : List UInt8} (drive : Drive)
    (hframed : Framed bytes) (hpayload : (Order.ofBytes bytes).payload = 0) :
    AttemptTidy base (Operation.runSeek command bytes drive) := by
  intro windows
  refine .get_bind fun c w h => ?_
  refine Attempt.Keeps.bind (tidy_sendCommand _ none hframed (.inr hpayload) windows)
    (fun _ => ?_) c w h
  refine .bind (tidy_awaitEnd _ _ windows) fun _ => ?_
  refine .bind (tidy_takeResult _ windows) fun _ => ?_
  exact .bind (tidy_senseHead windows) fun _ => .get_bind fun _ _ h' => h'

theorem tidy_runImmediate {command : Command} {bytes : List UInt8} (hframed : Framed bytes)
    (hpayload : (Order.ofBytes bytes).payload = 0) :
    AttemptTidy base (Operation.runImmediate command bytes) := by
  intro windows
  refine .bind (tidy_sendCommand _ none hframed (.inr hpayload) windows) fun _ => ?_
  refine .bind (tidy_awaitAnswer _ windows) fun _ => ?_
  refine .bind (tidy_takeResult _ windows) fun result => ?_
  exact .bind (tidy_absorb command result windows) fun _ => .get_bind fun _ _ h => h

end Diskette.Wire
