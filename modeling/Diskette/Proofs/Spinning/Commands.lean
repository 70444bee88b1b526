import Diskette.Proofs.Conduct.Requests
import Diskette.Proofs.Spinning.Operations

/-!
Commands from the time that the motor runs. The drive that was selected for a command is still selected when its first
byte goes out, whatever came in between, and its motor still runs.
-/
namespace Diskette

open Simulated (Order)

variable {α : Type} {base : UInt16} {terms : Terms} {motors : Motors} {drive : Drive} {Due : Nat → Prop}
  {c : Controller} {t : History Platform} {bytes : List UInt8}

/-- An attempt that leaves the motors alone, and may break off with a payload due. -/
abbrev AttemptMinds (base : UInt16) (terms : Terms) (motors : Motors) (drive : Drive) (a : Attempt α) : Prop :=
  Attempt.Keeps (minded base terms) (Idling base motors drive) (fun _ => Unsettled base motors drive) a

abbrev DeliveryMinds (base : UInt16) (terms : Terms) (motors : Motors) (drive : Drive) (d : Delivery α) : Prop :=
  Delivery.Keeps (minded base terms) (Idling base motors drive) (fun _ => Unsettled base motors drive) d

theorem minds_of_keeps {a : Attempt α}
    (h : Attempt.Keeps (minded base terms) (Idling base motors drive) (fun _ => Idling base motors drive) a) :
    AttemptMinds base terms motors drive a := h.weaken fun _ _ _ => Steered.unsettled

/-- A command may go out, whether the gate is open or not. -/
def Terms.Start (terms : Terms) (motors : Motors) (drive : Drive) (bytes : List UInt8) : Prop :=
  ∀ output : DigitalOutput, output.motors = motors → output.drive = drive → output.resetAsserted = false →
    terms.Grants (some output.encode) bytes

theorem minds_agreeOnPath : AttemptMinds base terms motors drive Operation.agreeOnPath :=
  minds_of_keeps <| .get_bind fun c t h => by
    rw [Attempt.ensures_ite]
    split
    · exact h
    · exact idling_specify _ c t h

theorem passive_setUpChannel (load : Option Operation.ChannelLoad) : (Operation.setUpChannel load).Only Passive := by
  refine (Operation.only_setUpChannel load).mono ?_
  rintro _ ⟨_, _, _, rfl⟩
  trivial

theorem passive_expectEnd (c : Controller) (interrupting : Bool) :
    (Operation.expectEnd c interrupting).Only Passive := by
  refine (Operation.only_expectEnd c interrupting).mono ?_
  rintro _ ⟨_, rfl, _⟩
  trivial

/-- What is set up before a command keeps the wire clear for it. -/
theorem clear_setUp {Q : Expectation → History Platform → Prop} (load : Option Operation.ChannelLoad)
    (interrupting : Bool) (h : Idling base motors drive c t) (hcommand : (Wire.heard base t).command = [])
    (hQ : ∀ e t', Idling base motors drive c t' → (Wire.heard base t').command = [] → Q e t') :
    (do
      Operation.setUpChannel load
      Operation.expectEnd c interrupting : Routine Expectation).Ensures (minded base terms) Q t := by
  refine Program.ensures_bind.mpr (((Wire.still_setUpChannel load _).with_wire
    (h.routine Wire.none_due (passive_setUpChannel load))).mono ?_)
  rintro - t₁ ⟨⟨-, -, hcommand₁, -⟩, h₁⟩
  refine ((Wire.ensures_still (Wire.quiet_expectEnd c interrupting) _).with_wire
    (h₁.routine Wire.none_due (passive_expectEnd c interrupting))).mono ?_
  rintro e t₂ ⟨hstill, h₂⟩
  exact hQ e t₂ h₂ (hstill.command.trans (hcommand₁.trans hcommand))

/-- A command goes out with the registers as they were before it. -/
theorem minded_sendCommand (interrupting : Bool) (load : Option Operation.ChannelLoad) (hframed : Wire.Framed bytes)
    (hstart : terms.Start motors drive bytes) (h : Idling base motors drive c t) :
    Attempt.Ensures (minded base terms) (Operation.sendCommand bytes interrupting load) (fun _ _ _ => True)
      (fun _ _ _ => True) c t := by
  simp only [Operation.sendCommand, Attempt.ensures_bind, Attempt.ensures_setPhase, Attempt.ensures_getThe,
    Attempt.ensures_lift]
  have hwindow : (Platform.uninterrupted do
      Operation.setUpChannel load
      let expectation ← Operation.expectEnd { c with phase := .sending } interrupting
      return (expectation, ← Fifo.send c.base bytes)).Ensures (minded base terms) (fun _ _ => True) t := by
    refine minded_uninterrupted fun b => ?_
    have hopen : Idling base motors drive c (t ++ [⟨.suppress, b⟩]) :=
      h.append (by simp) (by rw [Wire.heard_snoc]; exact h.due)
    replace hopen : Idling base motors drive { c with phase := .sending } (t ++ [⟨.suppress, b⟩]) :=
      hopen.of_shadow rfl
    have hclear : (Wire.heard base (t ++ [⟨.suppress, b⟩])).command = [] := by
      rw [Wire.heard_snoc]
      rfl
    have hsetUp : (do
        Operation.setUpChannel load
        Operation.expectEnd { c with phase := .sending } interrupting : Routine Expectation).Ensures (minded base terms)
          (fun e => Program.Ensures (minded base terms) (do return (e, ← Fifo.send c.base bytes)) fun _ _ => True)
          (t ++ [⟨.suppress, b⟩]) := clear_setUp load interrupting hopen hclear ?_
    · rw [Program.ensures_bind] at hsetUp
      exact Program.ensures_bind.mpr (hsetUp.mono fun _ _ => Program.ensures_bind.mpr)
    intro e t' h' hclear'
    have hgrants : terms.Grants (lastWritten (Port.digitalOutput base) t') bytes := by
      rw [h'.output]
      exact hstart _ h'.motors_eq h'.drive_eq h'.outOfReset
    rw [h.base_eq]
    exact Program.ensures_bind.mpr ((minded_send h'.due hclear' hframed hgrants).mono fun _ _ _ => trivial)
  refine hwindow.mono ?_
  rintro ⟨expectation, sent⟩ t' -
  rw [Attempt.ensures_modify, Attempt.ensures_ofExcept]
  cases sent <;> trivial

/-- What a command that has been sent leaves due. -/
theorem steered_sendCommand (interrupting : Bool) (load : Option Operation.ChannelLoad) (hframed : Wire.Framed bytes)
    (hstart : terms.Start motors drive bytes) (h : Idling base motors drive c t) :
    Attempt.Ensures (minded base terms) (Operation.sendCommand bytes interrupting load)
      (fun _ => Steered base motors drive (· = if load.isSome then 0 else (Order.ofBytes bytes).payload))
      (fun _ => Unsettled base motors drive) c t := by
  have hload : ∀ c t, Unsettled base motors drive c t →
      (Operation.setUpChannel load).Ensures recorded (fun _ => Unsettled base motors drive c) t := by
    intro c t h
    refine (Operation.only_setUpChannel load).ensures ?_ h
    rintro t _ ⟨_, _, _, rfl⟩ h
    refine ⟨trivial, ?_⟩
    rintro r _ rfl
    exact h.append (by simp) trivial
  have hrecord := conversing_unsettled.sendCommand bytes interrupting hload c t h.unsettled
  have htidy : Wire.Tidy base (Wire.heard base t).windows c (Wire.heard base t) := ⟨h.base_eq, rfl, h.due⟩
  have hwire := Wire.ensures_sendCommand interrupting load hframed htidy
  refine Program.Ensures.mono (Program.Ensures.with_record hrecord
    (Program.Ensures.with_wire hwire (minded_sendCommand interrupting load hframed hstart h))) ?_
  rintro ⟨cause | _, c'⟩ t' ⟨hsteered, hdue, -⟩
  · exact hsteered
  · exact hsteered.with_due hdue.2

theorem minds_sendCommand (interrupting : Bool) (load : Option Operation.ChannelLoad) (hframed : Wire.Framed bytes)
    (hstart : terms.Start motors drive bytes) (hpayload : load.isSome ∨ (Order.ofBytes bytes).payload = 0) :
    AttemptMinds base terms motors drive (Operation.sendCommand bytes interrupting load) := by
  intro c t h
  refine (steered_sendCommand interrupting load hframed hstart h).mono (fun _ c' t' h' => ?_) fun _ _ _ => id
  refine h'.with_due (h'.due.trans ?_)
  rcases hpayload with hload | hnone
  · exact if_pos hload
  · rw [hnone, ite_self]

theorem minds_modify {f : Controller → Controller} (hf : ∀ c, (f c).shadow = c.shadow) :
    AttemptMinds base terms motors drive (modifyThe Controller f) := .modify fun c _ h => h.of_shadow (hf c)

theorem minds_throw (cause : Failure) : AttemptMinds base terms motors drive (throw cause : Attempt α) :=
  .throw fun _ _ => Steered.unsettled

theorem minds_senseHead : AttemptMinds base terms motors drive Operation.senseHead := by
  refine .get_bind fun c t h => ?_
  rw [Attempt.ensures_bind, Attempt.ensures_of]
  refine (idling_transact .senseInterrupt _ rfl Bool.false_ne_true h).mono ?_
  rintro (cause | result) t' h'
  · exact h'.unsettled
  · refine Attempt.Keeps.bind (minds_modify (by exact fun _ => rfl)) (fun _ => ?_) c t' h'
    split
    · exact .bind (minds_throw _) fun _ => .pure
    · exact .pure

theorem minds_absorb (command : Command) (result : ResultBytes command.resultLength) :
    AttemptMinds base terms motors drive (Operation.absorb command result) := by
  cases command with
  | readId head =>
    exact .bind (.operation (keeps_modify (by exact fun _ => rfl))) fun _ => minds_of_keeps (Alert.checkStatus _ result)
  | specify timing path => exact minds_modify (by exact fun _ => rfl)
  | senseInterrupt | senseDrive | version => exact .operation (keeps_modify (by exact fun _ => rfl))
  | _ => exact .pure

theorem minds_runSeek (command : Command) (unit : Drive) (hframed : Wire.Framed bytes)
    (hpayload : (Order.ofBytes bytes).payload = 0) (hstart : terms.Start motors drive bytes) :
    AttemptMinds base terms motors drive (Operation.runSeek command bytes unit) := by
  refine .get_bind fun c t h => ?_
  refine Attempt.Keeps.bind (minds_sendCommand _ none hframed hstart (.inr hpayload)) (fun _ => ?_) c t h
  refine .bind (minds_of_keeps (alert_idling.awaitEnd _ _)) fun _ => ?_
  refine .bind (minds_of_keeps (alert_idling.takeResult _)) fun _ => ?_
  exact .bind minds_senseHead fun _ => .get_bind fun _ _ h => h

theorem minds_runImmediate (command : Command) (hframed : Wire.Framed bytes)
    (hpayload : (Order.ofBytes bytes).payload = 0) (hstart : terms.Start motors drive bytes) :
    AttemptMinds base terms motors drive (Operation.runImmediate command bytes) := by
  refine .bind (minds_sendCommand _ none hframed hstart (.inr hpayload)) fun _ => ?_
  refine .bind (minds_of_keeps (alert_idling.awaitAnswer _)) fun _ => ?_
  refine .bind (minds_of_keeps (alert_idling.takeResult _)) fun result => ?_
  exact .bind (minds_absorb command result) fun _ => .get_bind fun _ _ h => h

theorem minds_receiveStatus : AttemptMinds base terms motors drive Operation.receiveStatus :=
  .bind (minds_of_keeps (alert_idling.takeResult _)) fun _ =>
    .bind (.operation (keeps_modify (by exact fun _ => rfl))) fun _ => .pure

theorem minds_passive {p : Routine α} (hp : p.Only Passive) :
    DeliveryMinds base terms motors drive (liftM p : Delivery α) :=
  .lift fun _ _ h => h.routine Wire.none_due hp

theorem minds_transferByChannel (channel : UInt8) (span : SectorSpan) (t : Transfer) (hframed : Wire.Framed bytes)
    (hstart : terms.Start motors drive bytes) :
    DeliveryMinds base terms motors drive (Operation.transferByChannel channel bytes span t) := by
  have hfill : (Operation.fillBounce t).Only Passive := by
    refine (Operation.only_fillBounce t).mono ?_
    rintro _ ⟨_, rfl⟩
    trivial
  have hmoved : (Channel.moved channel t.length).Only Passive :=
    .bind (.perform trivial) fun _ => .bind (.perform trivial) fun _ => .ite .done .done
  have hempty : ∀ moved, DeliveryMinds base terms motors drive (Operation.emptyBounce t moved) :=
    fun moved => (alert_idling.emptyBounce t moved).weaken fun _ _ _ => Steered.unsettled
  refine .bind (minds_passive hfill) fun _ => .bind (minds_passive (.perform trivial)) fun address => ?_
  refine .bind (.attempt (minds_sendCommand true _ hframed hstart (.inl rfl))) fun _ => ?_
  refine .bind (.attempt (minds_of_keeps (alert_idling.awaitEnd _ _))) fun endedBy => ?_
  refine .bind (.attempt (minds_of_keeps alert_idling.awaitResult)) fun _ => ?_
  refine .bind (.attempt minds_receiveStatus) fun result => .bind (minds_passive hmoved) fun moved => ?_
  exact .bind (hempty moved) fun _ => .attempt (minds_of_keeps (alert_idling.conclude span t result moved endedBy))

/-- The bytes that are stepped through the data port are no longer due. -/
theorem steered_stepSectors (span : SectorSpan) (buffer : PayloadBuffer) (taken : List UInt8) {due : Nat}
    (hdue : span.count.toNat * span.sectorBytes ≤ due) (h : Steered base motors drive (· = due) c t) :
    Delivery.Ensures (minded base terms) (Operation.stepSectors c.base span buffer)
      (fun moved _ => Steered base motors drive fun n => moved + n = due) (fun _ _ _ _ => False) taken c t := by
  have hthere : span.count.toNat * span.sectorBytes ≤ (Wire.heard base t).due := by
    rw [h.due]
    exact hdue
  have hread : (Operation.readSectors base span.sectorBytes span.count.toNat).Ensures (minded base terms)
      (fun bytes t' => Steered base motors drive (fun n => bytes.length + n = due) c t') t := by
    have hrecord := conversing_unsettled.talks
      (Operation.only_readSectors span.sectorBytes span.count.toNat) h.unsettled
    rw [h.base_eq] at hrecord
    have hbrief : (Operation.readSectors base span.sectorBytes span.count.toNat).Only (Brief base none) :=
      only_readSectors_brief _ _
    refine (hrecord.with_record ((Wire.ensures_readSectors _ _ _ hthere).with_wire
      (minded_passive (hbrief.mono fun _ => passive_of_brief)))).mono ?_
    rintro bytes t' ⟨h', ⟨-, hsum⟩, -⟩
    exact h'.with_due (hsum.trans h.due)
  have hwrite : ∀ source, (Operation.writeSectors base span.sectorBytes span.count.toNat source).Ensures
      (minded base terms) (fun moved t' => Steered base motors drive (fun n => moved + n = due) c t') t := by
    intro source
    have hrecord := conversing_unsettled.talks
      (Operation.only_writeSectors span.sectorBytes span.count.toNat source) h.unsettled
    rw [h.base_eq] at hrecord
    refine (hrecord.with_record ((Wire.ensures_writeSectors _ _ source _ hthere).with_wire
      (minded_writeSectors _ _ source t hthere))).mono ?_
    rintro moved t' ⟨h', ⟨-, hsum⟩, -⟩
    exact h'.with_due (hsum.trans h.due)
  rw [h.base_eq]
  refine (Operation.ensures_stepSectors hread hwrite).mono ?_ fun _ _ _ _ => id
  rintro _ _ _ _ ⟨rfl, hsteered⟩
  exact hsteered

theorem minds_transferByPort {span : SectorSpan} {t : Transfer} (hframed : Wire.Framed bytes)
    (hvalid : span.validate = .ok ()) (hlength : t.length = span.byteLength)
    (hpayload : (Order.ofBytes bytes).payload = span.byteLength) (hstart : terms.Start motors drive bytes) :
    DeliveryMinds base terms motors drive (Operation.transferByPort bytes span t) := by
  intro taken c s h
  simp only [Operation.transferByPort, Delivery.ensures_bind, Delivery.ensures_attempt, Delivery.ensures_operation,
    Delivery.ensures_getThe, Delivery.ensures_ite, Delivery.ensures_throw, Operation.ensures_setPhase]
  refine (steered_sendCommand false none hframed hstart h).mono (fun _ c₁ s₁ h₁ => ?_) fun _ _ _ => id
  have h₂ : Steered base motors drive (· = span.byteLength) { c₁ with phase := .awaitingCompletion } s₁ :=
    Steered.of_shadow (h₁.weaken fun n hn => hn.trans hpayload) rfl
  refine (steered_stepSectors span t.buffer taken (Nat.le_of_eq (SectorSpan.byteLength_eq hvalid).symm) h₂).mono
    ?_ fun _ _ _ _ => False.elim
  intro moved taken' c₃ s₃ h₃
  split
  · exact h₃.unsettled
  · rename_i hmoved
    have hidle : Idling base motors drive c₃ s₃ := h₃.with_due (by have := h₃.due; omega)
    have hend : AttemptMinds base terms motors drive (do
        let result ← Operation.receiveStatus
        Operation.conclude span t result moved .polling) :=
      .bind minds_receiveStatus fun result => minds_of_keeps (alert_idling.conclude span t result moved _)
    have hrun := hend c₃ s₃ hidle
    rwa [Attempt.ensures_bind] at hrun

theorem minds_transfer {span : SectorSpan} {t : Transfer} (hframed : Wire.Framed bytes)
    (hvalid : span.validate = .ok ()) (hlength : t.length = span.byteLength)
    (hpayload : (Order.ofBytes bytes).payload = span.byteLength) (hstart : terms.Start motors drive bytes) :
    DeliveryMinds base terms motors drive (Operation.transfer bytes span t) := by
  refine .get_bind fun taken c s h => ?_
  refine Delivery.Keeps.bind (.attempt minds_agreeOnPath) (fun _ => ?_) taken c s h
  split
  · exact minds_transferByChannel _ span t hframed hstart
  · exact minds_transferByPort hframed hvalid hlength hpayload hstart

end Diskette
