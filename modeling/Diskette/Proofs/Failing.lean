import Diskette.Proofs.Acceptance
import Diskette.Proofs.Reset

/-!
How commands fail. Once a command is accepted, every failure is one that calls for a reset, and until
then nothing of the setting of the controller has changed but the motor of its drive.
-/
namespace Diskette

variable {base : UInt16} {α β : Type} {x c : Controller} {t : History Platform}

/-- Whatever is answered, the outcome is of this kind. -/
abbrev Yields (p : Routine α) (φ : α → Prop) : Prop :=
  ∀ t, p.Ensures recorded (fun a _ => φ a) t

theorem yields_always (p : Routine α) {φ : Prop} (h : φ) : Yields p fun _ => φ := by
  intro t
  induction p generalizing t with
  | done a => exact h
  | call c next ih => exact ⟨trivial, fun r t' _ => ih r t'⟩

theorem yields_done {a : α} {φ : α → Prop} (h : φ a) : Yields (pure a) φ := fun _ => h

/-- What matters is how a routine goes on. -/
theorem yields_bind {p : Routine β} {f : β → Routine α} {φ : α → Prop}
    (hf : ∀ b, Yields (f b) φ) : Yields (p >>= f) φ := by
  intro t
  exact Program.ensures_bind.mpr ((yields_always p trivial t).mono fun b t' _ => hf b t')

theorem yields_ite {b : Prop} [Decidable b] {p q : Routine α} {φ : α → Prop}
    (hp : Yields p φ) (hq : Yields q φ) : Yields (if b then p else q) φ := by
  split
  · exact hp
  · exact hq

theorem yields_uninterrupted {p : Routine α} {φ : α → Prop} (h : Yields p φ) :
    Yields (Platform.uninterrupted p) φ := by
  refine yields_bind fun wasEnabled t => ?_
  exact Program.ensures_bind.mpr ((h t).mono fun a t' ha => ⟨trivial, fun _ _ _ => ha⟩)

/-- A failure, if there is one, calls for a reset. -/
def Hard : Except Failure α → Prop
  | .ok _ => True
  | .error cause => cause.causedReset

/-- The controller does not keep up, or tells of a failure itself. -/
def Failure.Lapse : Failure → Prop
  | .writeTimeout .. | .resultTimeout | .abnormalTermination .. => True
  | _ => False

theorem Failure.Lapse.causedReset {cause : Failure} (h : cause.Lapse) : cause.causedReset := by
  cases cause <;> first | rfl | exact h.elim

/-- A failure, if there is one, is the controller's. -/
def Lapses : Except Failure α → Prop
  | .ok _ => True
  | .error cause => cause.Lapse

/-- The setting is as it was. -/
def Holds (x : Controller) (c : Controller) (_ : History Platform) : Prop := c.setting = x

/-- So it is after a failure of the controller. -/
def Lapsed (x : Controller) (cause : Failure) (c : Controller) (_ : History Platform) : Prop :=
  cause.Lapse ∧ c.setting = x

/-- So it is after a failure that calls for a reset. -/
def Broken (x : Controller) (cause : Failure) (c : Controller) (_ : History Platform) : Prop :=
  cause.causedReset ∧ c.setting = x

abbrev OperationHolds (x : Controller) (op : Operation α) : Prop :=
  Operation.Keeps recorded (Holds x) op

abbrev AttemptHolds (x : Controller) (a : Attempt α) : Prop :=
  Attempt.Keeps recorded (Holds x) (Lapsed x) a

abbrev DeliveryHolds (x : Controller) (d : Delivery α) : Prop :=
  Delivery.Keeps recorded (Holds x) (Broken x) d

theorem AttemptHolds.weaken {a : Attempt α} (h : AttemptHolds x a) :
    Attempt.Keeps recorded (Holds x) (Broken x) a :=
  Attempt.Keeps.weaken h fun _ _ _ hl => ⟨hl.1.causedReset, hl.2⟩

theorem AttemptHolds.delivery {a : Attempt α} (h : AttemptHolds x a) : DeliveryHolds x (.attempt a) :=
  .attempt h.weaken

theorem lapses_sendFrom (total : Nat) (bytes : List UInt8) (sent : Nat) :
    Yields (Fifo.sendFrom base total bytes sent) Lapses := by
  induction bytes generalizing sent with
  | nil => exact yields_done trivial
  | cons b rest ih =>
    exact yields_bind fun _ => yields_ite (yields_bind fun _ => ih (sent + 1)) (yields_done trivial)

theorem lapses_awaitResult : Yields (Fifo.awaitResult base) Lapses :=
  yields_bind fun _ => yields_ite (yields_done trivial) (yields_done trivial)

theorem lapses_awaitAnswer (n : ResultLength) : Yields (Fifo.awaitAnswer base n) Lapses :=
  yields_ite lapses_awaitResult (yields_done trivial)

theorem lapses_receive (n : ResultLength) : Yields (Fifo.receive base n) Lapses := by
  apply yields_bind
  rintro ⟨bytes, bound⟩
  apply yields_done
  split
  · trivial
  · trivial

theorem lapses_finish : Yields (Fifo.finish base) Lapses :=
  yields_bind fun _ => yields_bind fun _ => yields_ite (yields_done trivial) (yields_done trivial)

theorem lapses_run_bind {a : ExceptT Failure Routine α} {f : α → ExceptT Failure Routine β}
    (h : Yields a.run Lapses) (hf : ∀ x, Yields (f x).run Lapses) : Yields (a >>= f).run Lapses := by
  intro t
  refine Program.ensures_run_bind.mpr ((h t).mono ?_)
  rintro (cause | x) t' hr
  · exact hr
  · exact hf x t'

theorem lapses_transact (bytes : List UInt8) (n : ResultLength) :
    Yields (Fifo.transact base bytes n) Lapses := by
  refine lapses_run_bind (yields_uninterrupted (lapses_sendFrom _ _ _)) fun _ => ?_
  refine lapses_run_bind (lapses_awaitAnswer n) fun _ => ?_
  refine lapses_run_bind (yields_uninterrupted (lapses_receive n)) fun _ => ?_
  exact lapses_run_bind lapses_finish fun _ _ => trivial

theorem holds_of_stays {op : Operation α} (h : OperationStays op) : OperationHolds x op :=
  fun c t hc => (h x t c t (.start hc)).mono fun _ _ _ h' => h'.setting_eq

theorem holds_modify {f : Controller → Controller} (hf : ∀ c, (f c).setting = c.setting) :
    OperationHolds x (modify f) := fun c _ h => (hf c).trans h

theorem holds_lift (p : Routine α) : OperationHolds x (liftM p : Operation α) :=
  .lift fun _ t h => yields_always _ h t

theorem holds_reset (hx : x.shadow.output.resetAsserted = false) :
    OperationHolds x Operation.reset := by
  intro c t hc
  have hshadow : c.shadow = x.shadow := by
    rw [← hc]
    rfl
  rw [← hshadow] at hx
  exact (ensures_reset hx).mono fun _ _ _ h => h.1.setting.trans hc

theorem holds_of {p : Routine (Except Failure α)} (h : Yields p Lapses) :
    AttemptHolds x (Attempt.of p) := by
  refine .of fun c t hc => (h t).mono ?_
  rintro (cause | _) t' hr
  · exact ⟨hr, hc⟩
  · exact hc

theorem holds_throw {cause : Failure} (h : cause.Lapse) :
    AttemptHolds x (throw cause : Attempt α) := .throw fun _ _ hc => ⟨h, hc⟩

theorem holds_modifyThe {f : Controller → Controller} (hf : ∀ c, (f c).setting = c.setting) :
    AttemptHolds x (modifyThe Controller f) := .modify fun c _ h => (hf c).trans h

theorem holds_specify (path : DataPath) : AttemptHolds x (Operation.specify path) := by
  intro c t hc
  simp only [Operation.specify, Attempt.ensures_bind, Attempt.ensures_get]
  rw [Attempt.ensures_of]
  apply (lapses_transact _ _ t).mono
  rintro (cause | _) t' hr
  · exact ⟨hr, hc⟩
  · exact hc

theorem holds_agreeOnPath : AttemptHolds x Operation.agreeOnPath :=
  .get_bind fun c t hc => by
    rw [Attempt.ensures_ite]
    split
    · exact hc
    · exact holds_specify _ c t hc

theorem holds_makeReceptive (hx : x.shadow.output.resetAsserted = false) :
    OperationHolds x Operation.makeReceptive :=
  .bind (holds_of_stays stays_mainStatus) fun _ =>
    .ite (fun _ => .bind (holds_of_stays (stays_log _)) fun _ => holds_reset hx) fun _ => .pure

theorem holds_sendCommand (bytes : List UInt8) (interrupting : Bool)
    (load : Option Operation.ChannelLoad) :
    AttemptHolds x (Operation.sendCommand bytes interrupting load) := by
  intro c t hc
  have hsend : Yields (Platform.uninterrupted do
      Operation.setUpChannel load
      let expectation ← Operation.expectEnd { c with phase := .sending } interrupting
      return (expectation, ← Fifo.send c.base bytes)) (fun r => Lapses r.2) := by
    refine yields_uninterrupted (yields_bind fun _ => yields_bind fun expectation t => ?_)
    exact Program.ensures_bind.mpr (lapses_sendFrom _ _ _ t)
  simp only [Operation.sendCommand, Attempt.ensures_bind, Attempt.ensures_setPhase,
    Attempt.ensures_getThe, Attempt.ensures_lift]
  apply (hsend t).mono
  rintro ⟨expectation, sent⟩ t' hsent
  rw [Attempt.ensures_modify, Attempt.ensures_ofExcept]
  cases sent with
  | ok _ => exact hc
  | error cause => exact ⟨hsent, hc⟩

theorem holds_awaitEnd (ms : Nat) (settled : MainStatus → Bool) :
    AttemptHolds x (Operation.awaitEnd ms settled) := by
  refine .bind (.operation (holds_of_stays (stays_setPhase _))) fun _ => .get_bind fun c t hc => ?_
  refine Attempt.Keeps.bind (.lift fun _ t h => yields_always _ h t) (fun r => ?_) c t hc
  refine .bind (holds_modifyThe (by exact fun _ => rfl)) fun _ => ?_
  split
  · exact .pure
  · exact .pure
  · exact holds_throw trivial

theorem holds_awaitResult : AttemptHolds x Operation.awaitResult :=
  .get_bind fun c t hc => holds_of lapses_awaitResult c t hc

theorem holds_awaitAnswer (n : ResultLength) : AttemptHolds x (Operation.awaitAnswer n) :=
  .get_bind fun c t hc => holds_of (lapses_awaitAnswer n) c t hc

theorem holds_takeResult (n : ResultLength) : AttemptHolds x (Operation.takeResult n) := by
  refine .bind (.operation (holds_of_stays (stays_setPhase _))) fun _ => .get_bind fun c t hc => ?_
  refine Attempt.Keeps.bind (holds_of (yields_uninterrupted (lapses_receive n))) (fun _ => ?_) c t hc
  exact .bind (holds_of lapses_finish) fun _ => .pure

theorem holds_absorbStatus (result : ResultBytes (.exactly maxResult)) :
    OperationHolds x (Operation.absorbStatus result) := holds_modify (by exact fun _ => rfl)

theorem holds_checkStatus (kind : CommandKind) (result : ResultBytes (.exactly maxResult)) :
    AttemptHolds x (Operation.checkStatus kind result) := by
  unfold Operation.checkStatus
  split
  · exact holds_throw trivial
  · exact .pure

theorem holds_senseHead : AttemptHolds x Operation.senseHead := by
  refine .get_bind fun c t hc => ?_
  refine Attempt.Keeps.bind (holds_of (lapses_transact _ _)) (fun result => ?_) c t hc
  refine .bind (holds_modifyThe (by exact fun _ => rfl)) fun _ => ?_
  split
  · exact .bind (holds_throw trivial) fun _ => .pure
  · exact .pure

theorem holds_absorb (command : Command) (result : ResultBytes command.resultLength) :
    AttemptHolds x (Operation.absorb command result) := by
  cases command with
  | readId head =>
    exact .bind (.operation (holds_absorbStatus result)) fun _ => holds_checkStatus _ result
  | specify timing path => exact holds_modifyThe (by exact fun _ => rfl)
  | senseInterrupt => exact .operation (holds_modify (by exact fun _ => rfl))
  | senseDrive => exact .operation (holds_modify (by exact fun _ => rfl))
  | version => exact .operation (holds_modify (by exact fun _ => rfl))
  | _ => exact .pure

theorem holds_runSeek (command : Command) (bytes : List UInt8) (drive : Drive) :
    AttemptHolds x (Operation.runSeek command bytes drive) := by
  refine .get_bind fun c t hc => ?_
  refine Attempt.Keeps.bind (holds_sendCommand _ _ _) (fun _ => ?_) c t hc
  refine .bind (holds_awaitEnd _ _) fun _ => ?_
  refine .bind (holds_takeResult _) fun _ => ?_
  exact .bind holds_senseHead fun _ => .get_bind fun _ _ hc' => hc'

theorem holds_runImmediate (command : Command) (bytes : List UInt8) :
    AttemptHolds x (Operation.runImmediate command bytes) := by
  refine .bind (holds_sendCommand _ _ _) fun _ => ?_
  refine .bind (holds_awaitAnswer _) fun _ => ?_
  refine .bind (holds_takeResult _) fun result => ?_
  exact .bind (holds_absorb command result) fun _ => .get_bind fun _ _ hc => hc

theorem holds_receiveStatus : AttemptHolds x Operation.receiveStatus :=
  .bind (holds_takeResult _) fun result =>
    .bind (.operation (holds_absorbStatus result)) fun _ => .pure

theorem holds_conclude (span : SectorSpan) (t : Transfer)
    (result : ResultBytes (.exactly maxResult)) (transferred : Nat) (endedBy : EndSign) :
    Attempt.Keeps recorded (Holds x) (Broken x) (Operation.conclude span t result transferred endedBy) := by
  refine .bind (holds_checkStatus _ result).weaken fun _ => ?_
  have hreport : Attempt.Keeps recorded (Holds x) (Broken x) (do
      Operation.log (.moved transferred t.direction span)
      return {
        result := result.toList
        status := (← getThe Controller).status
        transferred
        endedBy } : Attempt Report) :=
    .bind (.operation (holds_of_stays (stays_log _))) fun _ => .get_bind fun _ _ hc => hc
  split
  · exact .bind (.throw fun _ _ hc => ⟨rfl, hc⟩) fun _ => hreport
  · exact hreport

theorem holds_routine (p : Routine α) : DeliveryHolds x (liftM p : Delivery α) :=
  .lift fun _ t h => yields_always _ h t

theorem holds_deliver (bytes : List UInt8) : DeliveryHolds x (Delivery.deliver bytes) :=
  fun _ _ _ h => h

theorem holds_emptyBounce (t : Transfer) (moved : Nat) :
    DeliveryHolds x (Operation.emptyBounce t moved) := by
  unfold Operation.emptyBounce
  split
  · exact .pure
  · exact .bind (holds_routine _) fun _ => holds_deliver _

theorem holds_stepSectors (base : UInt16) (span : SectorSpan) (buffer : PayloadBuffer) :
    DeliveryHolds x (Operation.stepSectors base span buffer) := by
  unfold Operation.stepSectors
  split
  · exact .bind (holds_routine _) fun _ => .bind (holds_deliver _) fun _ => .pure
  · exact holds_routine _

theorem holds_transferByChannel (channel : UInt8) (bytes : List UInt8) (span : SectorSpan)
    (t : Transfer) : DeliveryHolds x (Operation.transferByChannel channel bytes span t) := by
  refine .bind (holds_routine _) fun _ => ?_
  refine .bind (holds_routine _) fun address => ?_
  refine .bind (holds_sendCommand _ _ _).delivery fun _ => ?_
  refine .bind (holds_awaitEnd _ _).delivery fun endedBy => ?_
  refine .bind holds_awaitResult.delivery fun _ => ?_
  refine .bind holds_receiveStatus.delivery fun result => ?_
  refine .bind (holds_routine _) fun moved => ?_
  exact .bind (holds_emptyBounce t moved) fun _ => .attempt (holds_conclude span t result moved _)

theorem holds_transferByPort (bytes : List UInt8) (span : SectorSpan) (t : Transfer) :
    DeliveryHolds x (Operation.transferByPort bytes span t) := by
  refine .bind (holds_sendCommand _ _ _).delivery fun _ => ?_
  refine .bind (.operation (holds_of_stays (stays_setPhase _))) fun _ => ?_
  refine .get_bind fun _ c h hc => ?_
  refine Delivery.Keeps.bind (holds_stepSectors _ span t.buffer) (fun moved => ?_) _ c h hc
  have hreport : DeliveryHolds x (do
      let result ← .attempt Operation.receiveStatus
      .attempt (Operation.conclude span t result moved .polling)) :=
    .bind holds_receiveStatus.delivery fun result => .attempt (holds_conclude span t result _ _)
  split
  · exact .bind (.throw fun _ _ hc => ⟨rfl, hc⟩) fun _ => hreport
  · exact hreport

theorem holds_transfer (bytes : List UInt8) (span : SectorSpan) (t : Transfer) :
    DeliveryHolds x (Operation.transfer bytes span t) := by
  refine .get_bind fun _ c h hc => ?_
  refine Delivery.Keeps.bind holds_agreeOnPath.delivery (fun _ => ?_) _ c h hc
  split
  · exact holds_transferByChannel _ _ _ _
  · exact holds_transferByPort _ _ _

end Diskette
