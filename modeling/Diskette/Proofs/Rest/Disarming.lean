import Diskette.Proofs.Standing

/-!
Arming and disarming within a command. Only the send of a command that interrupts arms the driver, and a wait that goes
well disarms it; so does a reset. A command that goes well has waited for whatever it was armed for.
-/
namespace Diskette

variable {α : Type} {c c' : Controller} {t : History Platform}

/-- No fire is awaited. -/
def Controller.Disarmed (c : Controller) : Prop := ∀ expected, c.expectation ≠ .armed expected

theorem Controller.Disarmed.of_expectation (h : c.Disarmed) (hc : c'.expectation = c.expectation) : c'.Disarmed := by
  intro expected harmed
  exact h expected (hc.symm.trans harmed)

theorem Controller.disarmed_of_idle (h : c.expectation = .idle) : c.Disarmed := by
  intro expected harmed
  exact absurd (h.symm.trans harmed) nofun

theorem Controller.disarmed_of_fired (h : c.expectation = .fired) : c.Disarmed := by
  intro expected harmed
  exact absurd (h.symm.trans harmed) nofun

theorem Controller.Disarmed.idle_or_fired (h : c.Disarmed) : c.expectation = .idle ∨ c.expectation = .fired := by
  cases hc : c.expectation with
  | idle => exact .inl rfl
  | armed expected => exact absurd hc (h expected)
  | fired => exact .inr rfl

/-- The driver is disarmed still if all goes well; after a failure it is not asked. -/
abbrev AttemptDisarmed (a : Attempt α) : Prop :=
  Attempt.Keeps recorded (fun c _ => c.Disarmed) (fun _ _ _ => True) a

abbrev DeliveryDisarmed (d : Delivery α) : Prop :=
  Delivery.Keeps recorded (fun c _ => c.Disarmed) (fun _ _ _ => True) d

theorem disarmed_of (p : Routine (Except Failure α)) : AttemptDisarmed (Attempt.of p) := by
  refine .of fun c t hc => (yields_always p hc t).mono ?_
  intro r t' hc
  cases r with
  | ok _ => exact hc
  | error _ => trivial

theorem disarmed_throw (cause : Failure) : AttemptDisarmed (throw cause : Attempt α) := .throw fun _ _ _ => trivial

theorem disarmed_modify {f : Controller → Controller} (hf : ∀ c, (f c).expectation = c.expectation) :
    Operation.Keeps recorded (fun c _ => c.Disarmed) (modify f) := .modify fun c _ hc => hc.of_expectation (hf c)

theorem disarmed_setPhase (phase : Phase) : AttemptDisarmed (liftM (Operation.setPhase phase)) :=
  .operation (disarmed_modify fun _ => rfl)

theorem disarmed_log (event : Log.Event) : AttemptDisarmed (liftM (Operation.log event)) := by
  refine .operation fun c t hc => ?_
  rw [Operation.ensures_log]
  exact yields_always _ hc t

theorem disarmed_specify (path : DataPath) : AttemptDisarmed (Operation.specify path) := by
  refine .get_bind fun c t hc => ?_
  refine Attempt.Keeps.bind (disarmed_of _) (fun _ => ?_) c t hc
  exact .modify fun c _ hc => hc.of_expectation rfl

theorem disarmed_agreeOnPath : AttemptDisarmed Operation.agreeOnPath := by
  refine .get_bind fun c t hc => ?_
  rw [Attempt.ensures_ite]
  split
  · exact hc
  · exact disarmed_specify _ c t hc

theorem disarmed_awaitResult : AttemptDisarmed Operation.awaitResult :=
  .get_bind fun _ t hc => disarmed_of _ _ t hc

theorem disarmed_awaitAnswer (n : ResultLength) : AttemptDisarmed (Operation.awaitAnswer n) :=
  .get_bind fun _ t hc => disarmed_of _ _ t hc

theorem disarmed_takeResult (n : ResultLength) : AttemptDisarmed (Operation.takeResult n) := by
  refine .bind (disarmed_setPhase _) fun _ => .get_bind fun c t hc => ?_
  refine Attempt.Keeps.bind (disarmed_of _) (fun _ => ?_) c t hc
  exact .bind (disarmed_of _) fun _ => .pure

theorem disarmed_absorbStatus (result : ResultBytes (.exactly maxResult)) :
    AttemptDisarmed (liftM (Operation.absorbStatus result)) := .operation (disarmed_modify fun _ => rfl)

theorem disarmed_checkStatus (kind : CommandKind) (result : ResultBytes (.exactly maxResult)) :
    AttemptDisarmed (Operation.checkStatus kind result) := by
  unfold Operation.checkStatus
  split
  · exact disarmed_throw _
  · exact .pure

theorem disarmed_senseHead : AttemptDisarmed Operation.senseHead := by
  refine .get_bind fun c t hc => ?_
  refine Attempt.Keeps.bind (disarmed_of _) (fun result => ?_) c t hc
  refine .bind (.modify fun c _ hc => hc.of_expectation rfl) fun _ => ?_
  split
  · exact .bind (disarmed_throw _) fun _ => .pure
  · exact .pure

theorem disarmed_absorb (command : Command) (result : ResultBytes command.resultLength) :
    AttemptDisarmed (Operation.absorb command result) := by
  cases command with
  | readId head => exact .bind (disarmed_absorbStatus result) fun _ => disarmed_checkStatus _ result
  | specify timing path => exact .modify fun c _ hc => hc.of_expectation rfl
  | senseInterrupt => exact .operation (disarmed_modify fun _ => rfl)
  | senseDrive => exact .operation (disarmed_modify fun _ => rfl)
  | version => exact .operation (disarmed_modify fun _ => rfl)
  | _ => exact .pure

theorem disarmed_receiveStatus : AttemptDisarmed Operation.receiveStatus :=
  .bind (disarmed_takeResult _) fun result => .bind (disarmed_absorbStatus result) fun _ => .pure

theorem disarmed_conclude (span : SectorSpan) (transfer : Transfer) (result : ResultBytes (.exactly maxResult))
    (transferred : Nat) (endedBy : EndSign) :
    AttemptDisarmed (Operation.conclude span transfer result transferred endedBy) := by
  refine .bind (disarmed_checkStatus _ result) fun _ => ?_
  have hreport : AttemptDisarmed (do
      Operation.log (.moved transferred transfer.direction span)
      return {
        result := result.toList
        status := (← getThe Controller).status
        transferred
        endedBy } : Attempt Report) := .bind (disarmed_log _) fun _ => .get_bind fun _ _ hc => hc
  split
  · exact .bind (disarmed_throw _) fun _ => hreport
  · exact hreport

theorem disarmed_routine (p : Routine α) : DeliveryDisarmed (liftM p : Delivery α) :=
  .lift fun _ t hc => yields_always p hc t

theorem disarmed_deliver (bytes : List UInt8) : DeliveryDisarmed (Delivery.deliver bytes) := fun _ _ _ hc => hc

theorem disarmed_emptyBounce (transfer : Transfer) (moved : Nat) :
    DeliveryDisarmed (Operation.emptyBounce transfer moved) := by
  unfold Operation.emptyBounce
  split
  · exact .pure
  · exact .bind (disarmed_routine _) fun _ => disarmed_deliver _

theorem disarmed_stepSectors (base : UInt16) (span : SectorSpan) (buffer : PayloadBuffer) :
    DeliveryDisarmed (Operation.stepSectors base span buffer) := by
  unfold Operation.stepSectors
  split
  · exact .bind (disarmed_routine _) fun _ => .bind (disarmed_deliver _) fun _ => .pure
  · exact disarmed_routine _

/-- A command that does not interrupt arms nothing. -/
theorem disarmed_sendBytes (bytes : List UInt8) (load : Option Operation.ChannelLoad) :
    AttemptDisarmed (Operation.sendCommand bytes false load) := by
  refine .bind (disarmed_setPhase _) fun _ => .get_bind fun c t hc => ?_
  have hexpect : Yields (Platform.uninterrupted do
      Operation.setUpChannel load
      let expectation ← Operation.expectEnd c false
      return (expectation, ← Fifo.send c.base bytes)) (fun r => r.1 = c.expectation) := by
    refine yields_uninterrupted (yields_bind fun _ => ?_)
    change Yields (do return (c.expectation, ← Fifo.send c.base bytes)) fun r => r.1 = c.expectation
    exact yields_bind fun _ => yields_done rfl
  rw [Attempt.ensures_bind, Attempt.ensures_lift]
  refine (hexpect t).mono ?_
  rintro ⟨_, sent⟩ t' rfl
  rw [Attempt.ensures_bind, Attempt.ensures_modify, Attempt.ensures_ofExcept]
  cases sent with
  | ok _ => exact hc
  | error _ => trivial

/-- A wait that ends before its time leaves no expectation. -/
theorem Expectation.yields_wait_spent (e : Expectation) (line : Option Line) (poll : Routine Bool) (ms : Nat) :
    Yields (e.wait line poll ms) fun r => r.2 = .fired ∨ r = (.timedOut, .idle) := by
  induction ms with
  | zero =>
    refine yields_bind fun seen => ?_
    cases seen with
    | some result => exact yields_done (.inl rfl)
    | none => exact yields_done (.inr rfl)
  | succ ms ih =>
    refine yields_bind fun seen => ?_
    cases seen with
    | some result => exact yields_done (.inl rfl)
    | none => exact yields_bind fun _ => ih

/-- Whatever was expected, a wait leaves the driver disarmed. -/
theorem ensures_awaitEnd_disarmed (ms : Nat) (settled : MainStatus → Bool) :
    Attempt.Ensures recorded (Operation.awaitEnd ms settled) (fun _ c' _ => c'.Disarmed) (fun _ _ _ => True) c t := by
  simp only [Operation.awaitEnd, Attempt.ensures_bind, Attempt.ensures_setPhase, Attempt.ensures_getThe,
    Attempt.ensures_lift, Attempt.ensures_modify]
  refine (Expectation.yields_wait_spent _ _ _ ms t).mono ?_
  rintro ⟨result, expectation⟩ t' hend
  have hdisarmed : ({ c with phase := .awaitingCompletion, expectation } : Controller).Disarmed := by
    rcases hend with hfired | hlate
    · exact Controller.disarmed_of_fired hfired
    · exact Controller.disarmed_of_idle (Prod.mk.inj hlate).2
  cases result with
  | interrupt => exact hdisarmed
  | polled => exact hdisarmed
  | timedOut => trivial

/-- What comes after a command that interrupts waits for it first. -/
theorem AttemptDisarmed.of_await {f : EndSign → Attempt α} (hf : ∀ sign, AttemptDisarmed (f sign)) {ms : Nat}
    {settled : MainStatus → Bool} : Attempt.Ensures recorded (Operation.awaitEnd ms settled >>= f)
      (fun _ c' _ => c'.Disarmed) (fun _ _ _ => True) c t := by
  rw [Attempt.ensures_bind]
  exact (ensures_awaitEnd_disarmed ms settled).mono (fun sign c' t' hc' => hf sign c' t' hc') fun _ _ _ => id

/-- Some step of which nothing is known. -/
theorem ensures_attempt_any (a : Attempt α) :
    Attempt.Ensures recorded a (fun _ _ _ => True) (fun _ _ _ => True) c t := by
  refine (yields_always (a.run.run c) trivial t).mono ?_
  rintro ⟨_ | _, _⟩ _ _
  · trivial
  · trivial

end Diskette
