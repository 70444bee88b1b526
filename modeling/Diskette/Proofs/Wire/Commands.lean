import Diskette.Proofs.Acceptance
import Diskette.Proofs.Run
import Diskette.Proofs.Wire.Operations

/-! Whole commands, heard on the wire, and everything else that may be asked of the driver. -/
namespace Diskette.Wire

open Simulated (Order)

variable {base : UInt16} {windows : List Bool} {α : Type} {c : Controller} {w : Wire}

theorem tidy_attempt {a : Attempt α} (h : AttemptTidy base a) :
    DeliveryTidy base (Delivery.attempt a) := fun windows => .attempt (h windows)

theorem tidy_routine {p : Routine α} (hp : p.Only (Quiet base)) :
    DeliveryTidy base (liftM p : Delivery α) := fun _ => .lift fun _ _ => quiet_mono hp

theorem tidy_receiveStatus : AttemptTidy base Operation.receiveStatus :=
  fun windows => .bind (tidy_takeResult _ windows) fun result =>
    .bind (.operation (tidy_absorbStatus result windows)) fun _ => .pure

theorem tidy_conclude (span : SectorSpan) (t : Transfer)
    (result : ResultBytes (.exactly maxResult)) (transferred : Nat) (endedBy : EndSign) :
    AttemptTidy base (Operation.conclude span t result transferred endedBy) := by
  intro windows
  refine .bind (tidy_checkStatus _ result windows) fun _ => ?_
  intro c w h
  rw [Attempt.ensures_ite]
  split
  · exact h.halted
  · refine Attempt.Keeps.bind (.operation (tidy_log _ windows)) (fun _ => ?_) c w h
    exact .get_bind fun _ _ h' => h'

theorem quiet_fillBounce (t : Transfer) : (Operation.fillBounce t).Only (Quiet base) := by
  unfold Operation.fillBounce
  split
  · exact .perform (by trivial)
  · exact .done

theorem tidy_emptyBounce (t : Transfer) (moved : Nat) :
    DeliveryTidy base (Operation.emptyBounce t moved) := by
  intro windows
  unfold Operation.emptyBounce
  split
  · exact .pure
  · exact .bind (tidy_routine (.perform (by trivial)) windows) fun _ _ _ _ h => h

theorem tidy_transferByChannel (channel : UInt8) {bytes : List UInt8} (span : SectorSpan)
    (t : Transfer) (hframed : Framed bytes) :
    DeliveryTidy base (Operation.transferByChannel channel bytes span t) := by
  intro windows
  refine .bind (tidy_routine (quiet_fillBounce t) windows) fun _ => ?_
  refine .bind (tidy_routine (.perform (by trivial)) windows) fun address => ?_
  refine .bind (tidy_attempt (tidy_sendCommand _ _ hframed (.inl rfl)) windows) fun _ => ?_
  refine .bind (tidy_attempt (tidy_awaitEnd _ _) windows) fun endedBy => ?_
  refine .bind (tidy_attempt tidy_awaitResult windows) fun _ => ?_
  refine .bind (tidy_attempt tidy_receiveStatus windows) fun result => ?_
  refine .bind (tidy_routine (quiet_moved _ _) windows) fun moved => ?_
  exact .bind (tidy_emptyBounce t moved windows) fun _ =>
    tidy_attempt (tidy_conclude span t result moved endedBy) windows

theorem tidy_transferByPort {bytes : List UInt8} {span : SectorSpan} {t : Transfer}
    (hframed : Framed bytes) (hvalid : span.validate = .ok ()) (hlength : t.length = span.byteLength)
    (hpayload : (Order.ofBytes bytes).payload = span.byteLength) :
    DeliveryTidy base (Operation.transferByPort bytes span t) := by
  intro windows taken c w h
  simp only [Operation.transferByPort, Delivery.ensures_bind, Delivery.ensures_attempt,
    Delivery.ensures_operation, Delivery.ensures_getThe, Delivery.ensures_ite,
    Delivery.ensures_throw, Operation.ensures_setPhase]
  refine (ensures_sendCommand _ none hframed h).mono ?_ fun _ _ _ => id
  rintro - c₁ w₁ ⟨h₁, hdue⟩
  have hbase : c₁.base = base := h₁.base_eq
  have hdue₁ : w₁.due = span.byteLength := hdue.trans hpayload
  have hsectors : span.count.toNat * span.sectorBytes ≤ w₁.due :=
    Nat.le_of_eq (hdue₁.trans (SectorSpan.byteLength_eq hvalid)).symm
  have hstep : Delivery.Ensures (tapped base) (Operation.stepSectors base span t.buffer) _ _ taken
      { c₁ with phase := .awaitingCompletion } w₁ := Operation.ensures_stepSectors
    (ensures_readSectors _ _ w₁ hsectors) fun source => ensures_writeSectors _ _ source w₁ hsectors
  have hbase' : Controller.base { c₁ with phase := .awaitingCompletion } = base := hbase
  rw [hbase']
  refine hstep.mono ?_ fun _ _ _ _ => False.elim
  rintro moved l c₂ w₂ ⟨rfl, hwindows, hsum⟩
  have hwindows₂ : w₂.windows = windows := hwindows.trans h₁.windows_eq
  split
  · exact ⟨hbase, hwindows₂⟩
  · rename_i hmoved
    have hdue₂ : w₂.due = 0 := by omega
    have hend : AttemptTidy base (do
        let result ← Operation.receiveStatus
        Operation.conclude span t result moved .polling) := fun windows =>
      .bind (tidy_receiveStatus windows) fun result => tidy_conclude span t result _ _ windows
    have hrun := hend windows _ w₂ ⟨hbase, hwindows₂, hdue₂⟩
    rwa [Attempt.ensures_bind] at hrun

theorem tidy_transfer {bytes : List UInt8} {span : SectorSpan} {t : Transfer}
    (hframed : Framed bytes) (hvalid : span.validate = .ok ()) (hlength : t.length = span.byteLength)
    (hpayload : (Order.ofBytes bytes).payload = span.byteLength) :
    DeliveryTidy base (Operation.transfer bytes span t) := by
  intro windows taken c w h
  unfold Operation.transfer
  rw [Delivery.ensures_bind, Delivery.ensures_getThe]
  refine Delivery.Keeps.bind (tidy_attempt tidy_agreeOnPath windows) (fun _ => ?_) taken c w h
  split
  · exact tidy_transferByChannel _ span t hframed windows
  · exact tidy_transferByPort hframed hvalid hlength hpayload windows

theorem tidy_carryOut {command : Command} {t : Option Transfer} {bytes : List UInt8}
    {drive : Drive} {recording : RecordingMode}
    (h : Operation.Prepared drive recording command t bytes) :
    DeliveryTidy base (Operation.carryOut command bytes t) := by
  obtain ⟨rfl, hvalid, hdata⟩ := h
  have hframed := framed_bytes command drive recording
  have hpayload := payload_bytes hvalid drive recording
  intro windows taken c w htidy
  unfold Operation.carryOut
  rw [Delivery.ensures_bind, Delivery.ensures_getThe]
  have hready : OperationTidy base (Operation.readyDrive command c.drive) :=
    fun windows => .ite (fun _ => tidy_startMotor _ windows) fun _ => .pure
  refine Delivery.Keeps.bind (.operation (hready windows)) (fun _ => ?_) taken c w htidy
  refine .bind (.operation (tidy_makeReceptive windows)) fun _ => ?_
  cases t with
  | some t =>
    obtain ⟨span, hfits⟩ := hdata
    rw [hfits.data] at hpayload
    simp only [hfits.data]
    exact tidy_transfer hframed (command.validate_span hfits.data hvalid) hfits.length_eq hpayload
      windows
  | none =>
    have hnone : command.transfer? = none := hdata
    rw [hnone] at hpayload
    simp only [hnone]
    split
    · exact tidy_attempt (tidy_runSeek _ hframed hpayload) windows
    · exact tidy_attempt (tidy_runImmediate hframed hpayload) windows

theorem halted_maskChannel (h : Halted base windows c w) :
    Operation.Ensures (tapped base) Operation.maskChannel (fun _ => Halted base windows) c w := by
  simp only [Operation.maskChannel, Operation.ensures_bind, Operation.ensures_get]
  split
  · rw [Operation.ensures_lift]
    exact halted_quiet (.perform (by exact Channel.mask_ne_unmask)) h
  · exact h

/-- Recovery makes up for a failed command. -/
theorem mends_recover (command : Command) (cause : Failure) (h : Halted base windows c w) :
    Operation.Ensures (tapped base) (Operation.recover command cause)
      (fun _ => Tidy base windows) c w := by
  refine Operation.ensures_bind.mpr ((halted_log _ h).mono fun _ c₁ w₁ h₁ => ?_)
  refine Operation.ensures_bind.mpr ((halted_maskChannel h₁).mono fun _ c₂ w₂ h₂ => ?_)
  rw [Operation.ensures_bind, Operation.ensures_modify, Operation.ensures_bind]
  have h₃ : Halted base windows { c₂ with expectation := .idle } w₂ := ⟨h₂.base_eq, h₂.windows_eq⟩
  exact (mends_reset h₃).mono fun _ => tidy_setPhase _ windows

/-- A command under way may break off; it leaves no window open then. -/
theorem ensures_undertake {command : Command} {t : Option Transfer} {bytes : List UInt8}
    {drive : Drive} {recording : RecordingMode}
    (hprepared : Operation.Prepared drive recording command t bytes)
    (h : Tidy base windows c w) :
    Operation.Ensures (tapped base) (Operation.undertake command bytes t)
      (fun pass c' w' => match pass.outcome with
        | .ok _ => Tidy base windows c' w'
        | .error _ => Halted base windows c' w') c w := by
  unfold Operation.undertake
  refine Operation.ensures_bind.mpr ((tidy_noticeStorm windows c w h).mono fun _ c₁ w₁ h₁ => ?_)
  rw [Operation.ensures_bind, Operation.ensures_setPhase, Operation.ensures_bind,
    Operation.ensures_get, Operation.ensures_bind]
  have h₂ : Tidy base windows { c₁ with phase := .ready } w₁ := ⟨h₁.base_eq, h₁.rests⟩
  refine (tidy_log _ windows _ _ h₂).mono fun _ c₃ w₃ h₃ => ?_
  rw [Operation.ensures_bind, Delivery.ensures_run]
  exact tidy_carryOut hprepared windows [] c₃ w₃ h₃

theorem tidy_complete (early : Option Failure) (report : Report) :
    OperationTidy base (Operation.complete early report) := by
  intro windows
  refine .bind (tidy_setPhase _ windows) fun _ => ?_
  have hnotice : OperationTidy base (Operation.takeNotice early) := by
    cases early with
    | none => exact tidy_noticeStorm
    | some notice => exact fun _ => .pure
  refine .bind (hnotice windows) fun _ => ?_
  exact .bind (tidy_modify (by exact fun _ => rfl) windows) fun _ => .pure

theorem tidy_perform (command : Command) (t : Option Transfer) :
    OperationTidy base (Operation.perform command t) := by
  intro windows c w h
  unfold Operation.perform
  have hprepare : Operation.Ensures (tapped base) (Operation.prepare command t) _ c w :=
    Operation.ensures_prepare (K := Rests windows) ⟨trivial, ?_⟩ h.rests
  · refine Operation.ensures_bind.mpr (hprepare.mono ?_)
    rintro (cause | bytes) c₁ w₁ ⟨rfl, hw₁, hprepared⟩
    · exact ⟨h.base_eq, hw₁⟩
    refine Operation.ensures_bind.mpr
      ((ensures_undertake (hprepared bytes rfl) ⟨h.base_eq, hw₁⟩).mono ?_)
    rintro ⟨early, outcome, delivered⟩ c₂ w₂ h₂
    cases outcome with
    | ok report =>
      exact Operation.Keeps.bind (tidy_complete early report windows) (fun _ => .pure) c₂ w₂ h₂
    | error cause =>
      exact Operation.ensures_bind.mpr ((mends_recover command cause h₂).mono fun _ _ _ => id)
  · rintro n w' rfl
    have hsize : Quiet base (.memory .bounceSize) := trivial
    exact h.rests.of_still (still_of_quiet hsize n)

theorem tidy_digitalInput : OperationTidy base Operation.digitalInput := by
  rintro windows c w ⟨rfl, hw⟩
  simp only [Operation.digitalInput, Operation.ensures_bind, Operation.ensures_get,
    Operation.ensures_ite, Operation.ensures_lift, Operation.ensures_pure]
  have hport : Port.digitalInput c.base ≠ Port.data c.base := by
    simp [Port.digitalInput, Port.data]
  split
  · exact quiet_mono (.perform (by exact hport)) ⟨rfl, hw⟩
  · exact ⟨rfl, hw⟩

theorem tidy_ps2Status : OperationTidy base Operation.ps2Status := by
  rintro windows c w ⟨rfl, hw⟩
  simp only [Operation.ps2Status, Operation.ensures_bind, Operation.ensures_get,
    Operation.ensures_ite, Operation.ensures_lift, Operation.ensures_pure]
  have hportA : Port.statusA c.base ≠ Port.data c.base := by simp [Port.statusA, Port.data]
  have hportB : Port.statusB c.base ≠ Port.data c.base := by simp [Port.statusB, Port.data]
  split
  · refine (quiet_mono (.perform (by exact hportA)) ⟨rfl, hw⟩).mono fun _ w' h' => ?_
    exact quiet_mono (.perform (by exact hportB)) h'
  · exact ⟨rfl, hw⟩

theorem tidy_selectDrive (drive : Drive) : OperationTidy base (Operation.selectDrive drive) :=
  tidy_writeOutput fun s => { s.output with drive }

theorem tidy_setMotor (drive : Drive) (on : Bool) :
    OperationTidy base (Operation.setMotor drive on) :=
  tidy_writeOutput fun s => s.output.setMotor drive on

theorem tidy_execute (command : Command) : OperationTidy base (Operation.execute command) :=
  fun windows => .bind (tidy_perform command none windows) fun _ => .pure

theorem tidy_executeWith (command : Command) (t : Transfer) :
    OperationTidy base (Operation.executeWith command t) :=
  fun windows => .bind (tidy_perform command (some t) windows) fun _ => .pure

theorem tidy_request (request : Request) : OperationTidy base request.perform := by
  intro windows
  cases request with
  | execute command =>
    exact .bind (tidy_execute command windows) fun _ => .pure
  | executeWith command t =>
    exact .bind (tidy_executeWith command t windows) fun _ => .pure
  | reset => exact tidy_reset windows
  | enableDma =>
    exact .bind (.run tidy_enableDma) fun _ => .pure
  | disableDma => exact tidy_disableDma windows
  | selectDrive drive => exact tidy_selectDrive drive windows
  | setMotor drive on => exact tidy_setMotor drive on windows
  | setRate rate => exact tidy_setRate rate windows
  | setRecording recording => exact tidy_modify (by exact fun _ => rfl) windows
  | mainStatus => exact .bind (tidy_mainStatus windows) fun _ => .pure
  | digitalInput => exact .bind (tidy_digitalInput windows) fun _ => .pure
  | ps2Status => exact .bind (tidy_ps2Status windows) fun _ => .pure

theorem rests_classify (placement : Placement) (h : Rests windows w) :
    (Controller.classify placement).Ensures (tapped placement.base)
      (fun c w' => Tidy placement.base windows c w') w := by
  have hquiet : ∀ port, port ≠ Port.data placement.base →
      (Platform.input port).Only (Quiet placement.base) := fun port hport => .perform (by exact hport)
  unfold Controller.classify
  refine Program.ensures_bind.mpr ((rests_quiet (hquiet _ ?_) h).mono fun a w₁ h₁ => ?_)
  · simp [Port.statusA, Port.data]
  refine Program.ensures_bind.mpr ((rests_quiet (hquiet _ ?_) h₁).mono fun b w₂ h₂ => ?_)
  · simp [Port.statusB, Port.data]
  refine Program.ensures_bind.mpr ((rests_quiet (hquiet _ ?_) h₂).mono fun input w₃ h₃ => ?_)
  · simp [Port.digitalInput, Port.data]
  refine Program.ensures_bind.mpr (Program.ensures_bind.mpr ((rests_output _ h₃).mono ?_))
  intro _ w₄ h₄
  refine Program.ensures_bind.mpr ((rests_looks Fifo.only_readStatus h₄).mono fun _ w₅ h₅ => ?_)
  refine Program.ensures_bind.mpr ((rests_quiet (hquiet _ ?_) h₅).mono fun readBack w₆ h₆ => ?_)
  · exact digitalOutput_ne_data
  have hline : ∀ irq, (Controller.openLine irq).Only (Quiet placement.base) := by
    rintro (_ | irq)
    · exact .done
    · exact .bind (.perform (by trivial)) fun _ => .done
  exact Program.ensures_bind.mpr ((rests_quiet (hline _) h₆).mono fun line w₇ h₇ => ⟨rfl, h₇⟩)

theorem tidy_resetUnready : OperationTidy base Controller.resetUnready :=
  fun windows => .bind (tidy_mainStatus windows) fun _ =>
    .ite (fun _ => .bind (tidy_log _ windows) fun _ => tidy_reset windows) fun _ => .pure

theorem tidy_chooseChannel : OperationTidy base Controller.chooseChannel :=
  fun windows => .get_bind fun c w h => by
    rw [Operation.ensures_ite]
    split
    · refine Operation.Keeps.bind (.run tidy_enableDma) (fun r => ?_) c w h
      cases r with
      | ok => exact .pure
      | error cause => exact tidy_log _ windows
    · exact h

theorem tidy_bringUp : OperationTidy base Controller.bringUp :=
  fun windows => .bind (tidy_resetUnready windows) fun _ =>
    .bind (tidy_chooseChannel windows) fun _ => .get_bind fun c w h => tidy_log _ windows c w h

theorem rests_probe (placement : Placement) (h : Rests windows w) :
    (Controller.probe placement).Ensures (tapped placement.base)
      (fun found w' => (∀ c ∈ found, c.base = placement.base) ∧ Rests windows w') w := by
  have hquiet : Quiet placement.base (.input (Port.mainStatus placement.base)) := quiet_mainStatus
  unfold Controller.probe
  refine Program.ensures_bind.mpr ((rests_quiet (.perform hquiet) h).mono fun status w₁ h₁ => ?_)
  rw [Program.ensures_ite]
  split
  · refine Program.ensures_bind.mpr ((rests_quiet (.perform (by trivial)) h₁).mono fun _ w₂ h₂ => ?_)
    exact ⟨by simp, h₂⟩
  · refine Program.ensures_bind.mpr ((rests_classify placement h₁).mono fun c w₂ h₂ => ?_)
    exact ⟨by simpa using h₂.base_eq, h₂.rests⟩

theorem rests_discover (placement : Placement) (h : Rests windows w) :
    (Controller.discover placement).Ensures (tapped placement.base)
      (fun found w' => (∀ c ∈ found, c.base = placement.base) ∧ Rests windows w') w := by
  unfold Controller.discover
  refine Program.ensures_bind.mpr ((rests_probe placement h).mono ?_)
  rintro (_ | c) w₁ ⟨hbase, h₁⟩
  · exact ⟨by simp, h₁⟩
  · have hc : Tidy placement.base windows c w₁ := ⟨hbase c rfl, h₁⟩
    refine Program.ensures_bind.mpr (Program.Ensures.mono (tidy_bringUp windows c w₁ hc) ?_)
    rintro ⟨_, c'⟩ w₂ h₂
    exact ⟨by simpa using h₂.base_eq, h₂.rests⟩

/-- An act leaves the windows as it found them, and a controller at its base if it leaves one. -/
theorem ensures_act {controller : Option Controller} (a : Act)
    (hbase : ∀ c ∈ controller, c.base = base) (h : Rests windows w) :
    (a.program base controller).Ensures (tapped base)
      (fun controller' w' => (∀ c ∈ controller', c.base = base) ∧ Rests windows w') w := by
  cases a with
  | probe irq channel => exact rests_probe ⟨base, irq, channel⟩ h
  | discover irq channel => exact rests_discover ⟨base, irq, channel⟩ h
  | ask request =>
    cases controller with
    | none => exact ⟨by simp, h⟩
    | some c =>
      have hc : Tidy base windows c w := ⟨hbase c rfl, h⟩
      refine Program.ensures_bind.mpr (Program.Ensures.mono (tidy_request request windows c w hc) ?_)
      rintro ⟨_, c'⟩ w' h'
      exact ⟨by simpa using h'.base_eq, h'.rests⟩
  | release =>
    cases controller with
    | none => exact ⟨by simp, h⟩
    | some c =>
      have hc : Tidy base windows c w := ⟨hbase c rfl, h⟩
      refine Program.ensures_bind.mpr (Program.Ensures.mono (tidy_release windows c w hc) ?_)
      rintro ⟨_, c'⟩ w' h'
      exact ⟨by simp, h'.rests⟩

end Diskette.Wire
