import Diskette.Proofs.InterruptFlag
import Diskette.Proofs.Rest.Disarming
import Diskette.Proofs.Success
import Diskette.Proofs.Tenure

/-!
The state of the driver between two requests. It is ready, or done, or faulted, as the last command that was accepted
since the last reset has gone, and it awaits no fire of its line.
-/
namespace Diskette

variable {c c' : Controller} {t : History Platform} {command : Command}

theorem ensures_runSeek_disarmed (command : Command) (bytes : List UInt8) (drive : Drive) :
    Attempt.Ensures recorded (Operation.runSeek command bytes drive) (fun _ c' _ => c'.Disarmed) (fun _ _ _ => True)
      c t := by
  unfold Operation.runSeek
  rw [Attempt.ensures_bind, Attempt.ensures_getThe, Attempt.ensures_bind]
  refine (ensures_attempt_any _).mono (fun _ _ _ _ => ?_) fun _ _ _ => id
  refine AttemptDisarmed.of_await fun sign => .bind (disarmed_takeResult _) fun _ => ?_
  exact .bind disarmed_senseHead fun _ => .get_bind fun _ _ hc => hc

theorem disarmed_runImmediate (command : Command) (bytes : List UInt8) :
    AttemptDisarmed (Operation.runImmediate command bytes) := by
  refine .bind (disarmed_sendBytes _ _) fun _ => .bind (disarmed_awaitAnswer _) fun _ => ?_
  refine .bind (disarmed_takeResult _) fun result => .bind (disarmed_absorb command result) fun _ => ?_
  exact .get_bind fun _ _ hc => hc

theorem ensures_transferByChannel_disarmed (channel : UInt8) (bytes : List UInt8) (span : SectorSpan)
    (transfer : Transfer) {taken : List UInt8} :
    Delivery.Ensures recorded (Operation.transferByChannel channel bytes span transfer) (fun _ _ c' _ => c'.Disarmed)
      (fun _ _ _ _ => True) taken c t := by
  have hrest : ∀ sign, DeliveryDisarmed (do
      .attempt Operation.awaitResult
      let result ← .attempt Operation.receiveStatus
      let moved ← Channel.moved channel transfer.length
      Operation.emptyBounce transfer moved
      .attempt (Operation.conclude span transfer result moved sign) : Delivery Report) := by
    intro sign
    refine .bind (.attempt disarmed_awaitResult) fun _ => .bind (.attempt disarmed_receiveStatus) fun result => ?_
    refine .bind (disarmed_routine _) fun moved => .bind (disarmed_emptyBounce _ _) fun _ => ?_
    exact .attempt (disarmed_conclude _ _ _ _ _)
  unfold Operation.transferByChannel
  rw [Delivery.ensures_bind, Delivery.ensures_lift]
  refine (yields_always _ trivial t).mono fun _ _ _ => ?_
  rw [Delivery.ensures_bind, Delivery.ensures_lift]
  refine (yields_always _ trivial _).mono fun _ _ _ => ?_
  rw [Delivery.ensures_bind, Delivery.ensures_attempt]
  refine (ensures_attempt_any _).mono (fun _ _ _ _ => ?_) fun _ _ _ => id
  rw [Delivery.ensures_bind, Delivery.ensures_attempt]
  exact (ensures_awaitEnd_disarmed _ _).mono (fun sign c' t' hc' => hrest sign _ c' t' hc') fun _ _ _ => id

theorem disarmed_transferByPort (bytes : List UInt8) (span : SectorSpan) (transfer : Transfer) :
    DeliveryDisarmed (Operation.transferByPort bytes span transfer) := by
  have hreport : ∀ moved, DeliveryDisarmed (do
      let result ← .attempt Operation.receiveStatus
      .attempt (Operation.conclude span transfer result moved .polling)) := fun moved =>
    .bind (.attempt disarmed_receiveStatus) fun result => .attempt (disarmed_conclude _ _ _ _ _)
  refine .bind (.attempt (disarmed_sendBytes _ _)) fun _ => .bind (.attempt (disarmed_setPhase _)) fun _ => ?_
  refine .get_bind fun taken c t hc => ?_
  refine Delivery.Keeps.bind (disarmed_stepSectors _ span transfer.buffer) (fun moved => ?_) taken c t hc
  split
  · exact .bind (.throw fun _ _ _ => trivial) fun _ => hreport moved
  · exact hreport moved

theorem disarmed_transfer (bytes : List UInt8) (span : SectorSpan) (transfer : Transfer) :
    DeliveryDisarmed (Operation.transfer bytes span transfer) := by
  refine .get_bind fun taken c t hc => ?_
  refine Delivery.Keeps.bind (.attempt disarmed_agreeOnPath) (fun _ => ?_) taken c t hc
  split
  · exact fun _ _ _ _ => ensures_transferByChannel_disarmed _ _ _ _
  · exact disarmed_transferByPort _ _ _

/-- A reset on the way to a command disarms the driver as well. -/
theorem ensures_makeReceptive_disarmed (hreset : c.shadow.output.resetAsserted = false) (hc : c.Disarmed) :
    Operation.Ensures recorded Operation.makeReceptive (fun _ c' _ => c'.Disarmed) c t := by
  simp only [Operation.makeReceptive, Operation.mainStatus, Operation.ensures_bind, Operation.ensures_get,
    Operation.ensures_lift, Operation.ensures_ite, Operation.ensures_log, Operation.ensures_pure]
  refine (yields_always _ trivial t).mono fun status t₁ _ => ?_
  split
  · refine (yields_always _ trivial t₁).mono fun _ t₂ _ => ?_
    exact (ensures_reset hreset).mono fun _ _ _ h => Controller.disarmed_of_idle h.1.expectation
  · exact hc

theorem Controller.Disarmed.spunUp (h : c.Disarmed) (command : Command) : (c.spunUp command).Disarmed := by
  refine h.of_expectation ?_
  unfold Controller.spunUp
  split <;> rfl

/-- A command that goes well leaves the driver disarmed, if that is how it found it. -/
theorem ensures_carryOut_disarmed (command : Command) (bytes : List UInt8) (transfer : Option Transfer)
    (h : Standing c) (hc : c.Disarmed) :
    Operation.Ensures recorded ((Operation.carryOut command bytes transfer).run [])
      (fun r c' _ => ∀ report, r.1 = .ok report → c'.Disarmed) c t := by
  have hcarry : Delivery.Ensures recorded (Operation.carryOut command bytes transfer) (fun _ _ c' _ => c'.Disarmed)
      (fun _ _ _ _ => True) [] c t := by
    unfold Operation.carryOut
    rw [Delivery.ensures_bind, Delivery.ensures_getThe, Delivery.ensures_bind, Delivery.ensures_operation]
    refine (ensures_readyDrive command).mono ?_
    rintro - c₁ t₁ rfl
    rw [Delivery.ensures_bind, Delivery.ensures_operation]
    refine (ensures_makeReceptive_disarmed (Controller.outOfReset_spunUp command h) (hc.spunUp command)).mono ?_
    intro _ c₂ t₂ hc₂
    split
    · exact disarmed_transfer _ _ _ _ c₂ t₂ hc₂
    · split
      · exact Delivery.ensures_attempt.mpr (ensures_runSeek_disarmed _ _ _)
      · exact Delivery.ensures_attempt.mpr (disarmed_runImmediate _ _ c₂ t₂ hc₂)
  rw [Delivery.ensures_run]
  exact hcarry.mono (fun _ _ _ _ hc' _ _ => hc') fun _ _ _ _ _ => nofun

theorem ensures_undertake_disarmed (command : Command) (bytes : List UInt8) (transfer : Option Transfer)
    (h : Standing c) (hc : c.Disarmed) :
    Operation.Ensures recorded (Operation.undertake command bytes transfer)
      (fun pass c' _ => ∀ report, pass.outcome = .ok report → c'.Disarmed) c t := by
  unfold Operation.undertake
  refine Operation.ensures_bind.mpr ((ensures_noticeStorm h).mono ?_)
  intro early c₁ t₁ hweathered
  have hc₁ : Standing { c₁ with phase := .ready } := (hweathered.standing h).of_setting rfl
  rw [Operation.ensures_bind, Operation.ensures_setPhase, Operation.ensures_bind, Operation.ensures_get,
    Operation.ensures_bind, Operation.ensures_log]
  refine Program.ensures_recorded.mpr fun _ => ?_
  rw [Program.ensures_done, Operation.ensures_bind]
  exact (ensures_carryOut_disarmed command bytes transfer hc₁ (hc.of_expectation hweathered.expectation)).mono
    fun _ _ _ hc' => hc'

/-- The phase that an answer leaves behind: that of a command tells what has become of it, unless it was refused. -/
def Phase.answered (phase : Phase) : Answer → Phase
  | .outcome (.error (.invalidParameters _)) => phase
  | .outcome (.error _) => .faulted
  | .outcome (.ok _) => .done
  | _ => phase

def Phase.following (phase : Phase) (request : Request) (answer : Answer) : Phase :=
  match request with
  | .reset => .ready
  | _ => phase.answered answer

/-- Awaits no fire, in this phase. -/
structure Controller.Rests (phase : Phase) (c : Controller) : Prop where
  disarmed : c.Disarmed
  phase_eq : c.phase = phase

theorem Controller.Rests.of_eq {phase : Phase} (h : c.Rests phase) (hexpectation : c'.expectation = c.expectation)
    (hphase : c'.phase = c.phase) : c'.Rests phase :=
  ⟨h.disarmed.of_expectation hexpectation, hphase.trans h.phase_eq⟩

/-- What a command comes to is told by the phase, unless it is refused. -/
theorem ensures_perform_rests (command : Command) (transfer : Option Transfer) (h : Standing c) (hc : c.Disarmed) :
    Operation.Ensures recorded (Operation.perform command transfer)
      (fun r c' _ => c'.Rests (c.phase.answered (.outcome r.1))) c t := by
  have hprepare : Operation.Ensures recorded (Operation.prepare command transfer) _ c t :=
    Operation.ensures_prepare (K := fun _ => True) ⟨trivial, fun _ _ _ => trivial⟩ trivial
  refine Operation.ensures_bind.mpr (hprepare.mono ?_)
  rintro (cause | bytes) c₁ t₁ ⟨rfl, -, -⟩
  · exact ⟨hc, rfl⟩
  have hundertake := (ensures_undertake command bytes transfer h (t := t₁)).and
    ((ensures_undertake_disarmed command bytes transfer h hc).and (stands_undertake command bytes transfer c₁ t₁ h))
  refine Operation.ensures_bind.mpr (hundertake.mono ?_)
  rintro ⟨early, outcome, delivered⟩ c₂ t₂ ⟨⟨hhard, -⟩, hdisarmed, hstanding⟩
  cases outcome with
  | ok report =>
    refine Operation.ensures_bind.mpr ((ensures_complete_done early report hstanding).mono ?_)
    rintro _ c₃ t₃ ⟨hphase, hexpectation⟩
    exact ⟨(hdisarmed report rfl).of_expectation hexpectation, hphase⟩
  | error cause =>
    refine Operation.ensures_bind.mpr ((ensures_recover command cause hstanding.outOfReset).mono ?_)
    rintro - c₃ t₃ ⟨hrecovered, -⟩
    refine ⟨Controller.disarmed_of_idle hrecovered.restarted.expectation, hrecovered.phase.trans ?_⟩
    cases cause <;> first | rfl | exact absurd hhard nofun

/-- What is neither a command nor a reset leaves the phase as it is, and the line. -/
def Request.Idle : Request → Prop
  | .execute _ | .executeWith .. | .reset => False
  | _ => True

theorem rests_shadowed {phase : Phase} (change : Shadow → Routine Shadow) :
    Operation.Keeps recorded (fun c _ => c.Rests phase) (Operation.shadowed change) := by
  intro c t hc
  rw [Operation.ensures_shadowed]
  exact (yields_always _ trivial t).mono fun _ _ _ => hc.of_eq rfl rfl

theorem rests_lift {α : Type} {phase : Phase} (p : Routine α) :
    Operation.Keeps recorded (fun c _ => c.Rests phase) (liftM p : Operation α) := .lift fun _ t hc => yields_always p hc t

theorem ensures_perform_idle {request : Request} {phase : Phase} (hidle : request.Idle) (h : Standing c)
    (hc : c.Rests phase) : Operation.Ensures recorded request.perform (fun _ c' _ => c'.Rests phase) c t := by
  cases request with
  | enableDma =>
    refine Operation.ensures_bind.mpr (ensures_enableDma.mono ?_)
    rintro _ c' t' (rfl | ⟨-, -, prior, rfl⟩)
    · exact hc
    · exact hc.of_eq rfl rfl
  | disableDma =>
    refine (ensures_disableDma h.hookSound).mono ?_
    rintro - c' t' rfl
    exact hc.of_eq rfl rfl
  | selectDrive drive => exact rests_shadowed (·.selectDrive drive) c t hc
  | setMotor drive on => exact rests_shadowed (·.setMotor drive on) c t hc
  | setRate rate => exact rests_shadowed (·.setRate rate) c t hc
  | setRecording => exact Operation.ensures_modify.mpr (hc.of_eq rfl rfl)
  | mainStatus => exact Operation.Keeps.bind (.get_bind fun c => rests_lift _ c) (fun _ => .pure) c t hc
  | digitalInput =>
    refine Operation.Keeps.bind (.get_bind fun c t hc => ?_) (fun _ => .pure) c t hc
    rw [Operation.ensures_ite]
    split
    · exact rests_lift _ c t hc
    · exact hc
  | ps2Status =>
    refine Operation.Keeps.bind (.get_bind fun c t hc => ?_) (fun _ => .pure) c t hc
    rw [Operation.ensures_ite]
    split
    · exact Operation.Keeps.bind (rests_lift _) (fun _ => .bind (rests_lift _) fun _ => .pure) c t hc
    · exact hc
  | _ => exact hidle.elim

theorem Phase.following_of_ne {phase : Phase} {request : Request} {answer : Answer} (h : request ≠ .reset) :
    phase.following request answer = phase.answered answer := by
  cases request with
  | reset => exact absurd rfl h
  | _ => rfl

theorem Phase.following_idle {phase : Phase} {request : Request} {answer : Answer} (hidle : request.Idle)
    (hanswer : ∀ r, answer ≠ .outcome r) : phase.following request answer = phase := by
  cases answer with
  | outcome r => exact absurd rfl (hanswer r)
  | _ => cases request <;> first | rfl | exact hidle.elim

/-- What a request leaves of the phase, and that it leaves nothing armed. -/
theorem ensures_respond_rests (request : Request) (h : Standing c) (hc : c.Disarmed) :
    Operation.Ensures recorded request.respond (fun answer c' _ => c'.Rests (c.phase.following request answer) ∧
      (request = .reset → answer = .nothing)) c t := by
  by_cases hidle : request.Idle
  · have hperform := ensures_perform_idle hidle h ⟨hc, rfl⟩ (t := t)
    rw [request.perform_eq, Operation.ensures_bind] at hperform
    have hanswer : Operation.Ensures recorded request.respond (fun answer _ _ => ∀ r, answer ≠ .outcome r) c t := by
      cases request with
      | execute | executeWith | reset => exact hidle.elim
      | _ => exact Operation.ensures_bind.mpr ((yields_always _ trivial t).mono fun _ _ _ => nofun)
    refine (hperform.and hanswer).mono fun answer c' t' hend => ⟨?_, ?_⟩
    · rw [Phase.following_idle hidle hend.2]
      exact hend.1
    · rintro rfl
      exact hidle.elim
  · cases request with
    | execute command =>
      refine Operation.ensures_bind.mpr (Operation.ensures_bind.mpr ((ensures_perform_rests command none h hc).mono ?_))
      exact fun _ _ _ hend => ⟨hend, nofun⟩
    | executeWith command transfer =>
      refine Operation.ensures_bind.mpr (Operation.ensures_bind.mpr
        ((ensures_perform_rests command (some transfer) h hc).mono ?_))
      rintro ⟨outcome, delivered⟩ c' t' hend
      exact ⟨hend, nofun⟩
    | reset =>
      refine Operation.ensures_bind.mpr ((ensures_reset h.outOfReset).mono ?_)
      rintro - c' t' ⟨hrestarted, hphase, -⟩
      exact ⟨⟨Controller.disarmed_of_idle hrestarted.expectation, hphase⟩, fun _ => rfl⟩
    | _ => exact absurd trivial hidle

/-- A probed controller is as a controller is at first. -/
theorem yields_probe_rests (placement : Placement) :
    Yields (Controller.probe placement) fun found => ∀ c ∈ found, c.Rests .ready := by
  refine yields_bind fun status => yields_ite ?_ ?_
  · exact yields_bind fun _ => yields_done (by simp)
  · have hclassify : Yields (Controller.classify placement) (·.Rests .ready) := by
      refine yields_bind fun _ => yields_bind fun _ => yields_bind fun _ => yields_bind fun _ => ?_
      refine yields_bind fun _ => yields_bind fun _ => yields_bind fun _ => yields_done ?_
      exact ⟨Controller.disarmed_of_idle rfl, rfl⟩
    intro t
    refine Program.ensures_bind.mpr ((hclassify t).mono fun c t' hc => ?_)
    simpa using hc

theorem ensures_bringUp_rests (h : Standing c) (hc : c.Rests .ready) :
    Operation.Ensures recorded Controller.bringUp (fun _ c' _ => c'.Rests .ready) c t := by
  have hlog : ∀ event, Operation.Keeps recorded (fun c _ => c.Rests .ready) (Operation.log event) := fun event =>
    .get_bind fun c => rests_lift _ c
  have hunready : Operation.Ensures recorded Controller.resetUnready (fun _ c' _ => c'.Rests .ready) c t := by
    simp only [Controller.resetUnready, Operation.mainStatus, Operation.ensures_bind, Operation.ensures_get,
      Operation.ensures_lift, Operation.ensures_ite, Operation.ensures_log, Operation.ensures_pure]
    refine (yields_always _ trivial t).mono fun status t₁ _ => ?_
    split
    · refine (yields_always _ trivial t₁).mono fun _ t₂ _ => (ensures_reset h.outOfReset).mono ?_
      rintro - c' t' ⟨hrestarted, hphase, -⟩
      exact ⟨Controller.disarmed_of_idle hrestarted.expectation, hphase⟩
    · exact hc
  have hchannel : Operation.Keeps recorded (fun c _ => c.Rests .ready) Controller.chooseChannel := by
    refine .get_bind fun c t hc => ?_
    rw [Operation.ensures_ite]
    split
    · refine Operation.ensures_bind.mpr (ensures_enableDma.mono ?_)
      rintro (cause | _) c' t' htaken
      all_goals
        have hrests : c'.Rests .ready := by
          obtain rfl | ⟨-, -, prior, rfl⟩ := htaken
          · exact hc
          · exact hc.of_eq rfl rfl
      · exact hlog _ c' t' hrests
      · exact hrests
    · exact hc
  refine Operation.ensures_bind.mpr (hunready.mono fun _ c₁ t₁ hc₁ => ?_)
  exact Operation.Keeps.bind hchannel (fun _ => .get_bind fun c t hc => hlog _ c t hc) c₁ t₁ hc₁

/-- A controller is found ready, and with nothing armed. -/
theorem yields_find_rests (placement : Placement) (opening : Opening) :
    Yields (opening.find placement) fun found => ∀ c ∈ found, Standing c ∧ c.Rests .ready := by
  have hprobe : Yields (Controller.probe placement) fun found => ∀ c ∈ found, Standing c ∧ c.Rests .ready :=
    fun t => ((yields_probe placement t).and (yields_probe_rests placement t)).mono
      fun found _ h c hc => ⟨h.1 c hc, h.2 c hc⟩
  cases opening with
  | probe => exact hprobe
  | discover =>
    intro t
    refine Program.ensures_bind.mpr ((hprobe t).mono ?_)
    rintro (_ | c) t₁ hc
    · exact fun _ => nofun
    · obtain ⟨hstanding, hrests⟩ := hc c rfl
      have hbringUp := (stands_bringUp c t₁ hstanding).and (ensures_bringUp_rests hstanding hrests)
      refine Program.ensures_bind.mpr (Program.Ensures.mono hbringUp ?_)
      rintro ⟨_, c'⟩ t₂ hc'
      simpa using hc'

variable {σ : Type} {follows : σ → (c : Platform.Call) → Platform.Reply c → σ → Prop} {stirs : σ → σ → Prop}
  {stages : List (Stage σ)} {stage : Stage σ} {s₀ s₁ s : σ} {c₀ : Controller}

/-- Neither a reset nor a command that was accepted. -/
structure Stage.Idle (stage : Stage σ) : Prop where
  request_ne : stage.request ≠ .reset
  not_accepted : ¬stage.answer.Accepted

/-- The last command that was accepted has come to this, and there was no reset since. -/
def LastOutcome (stages : List (Stage σ)) (r : Except Failure Report) : Prop :=
  ∃ earlier stage later, stages = earlier ++ stage :: later ∧ stage.answer = .outcome r ∧ stage.answer.Accepted ∧
    ∀ stage ∈ later, stage.Idle

/-- The state of a controller after some requests. -/
structure Resting (stages : List (Stage σ)) (c : Controller) : Prop where
  phase : c.phase = .ready ∨ c.phase = .done ∨ c.phase = .faulted
  ready : c.phase = .ready ↔ ∀ r, ¬LastOutcome stages r
  done : c.phase = .done ↔ ∃ report, LastOutcome stages (.ok report)
  faulted : c.phase = .faulted ↔ ∃ cause, LastOutcome stages (.error cause)
  expectation : c.expectation = .idle ∨ c.expectation = .fired

theorem lastOutcome_concat {r : Except Failure Report} : LastOutcome (stages ++ [stage]) r ↔
    stage.answer = .outcome r ∧ stage.answer.Accepted ∨ stage.Idle ∧ LastOutcome stages r := by
  constructor
  · rintro ⟨earlier, last, later, hsplit, hanswer, haccepted, hlater⟩
    rcases List.eq_nil_or_concat later with rfl | ⟨later, latest, rfl⟩
    · obtain ⟨-, hlast⟩ := List.append_inj' hsplit rfl
      obtain rfl : stage = last := by simpa using hlast
      exact .inl ⟨hanswer, haccepted⟩
    · rw [List.concat_eq_append, ← List.cons_append, ← List.append_assoc] at hsplit
      obtain ⟨hstages, hlatest⟩ := List.append_inj' hsplit rfl
      obtain rfl : stage = latest := by simpa using hlatest
      refine .inr ⟨hlater stage (by simp), earlier, last, later, hstages, hanswer, haccepted, ?_⟩
      exact fun x hx => hlater x (by simp [hx])
  · rintro (⟨hanswer, haccepted⟩ | ⟨hidle, earlier, last, later, rfl, hanswer, haccepted, hlater⟩)
    · exact ⟨stages, stage, [], rfl, hanswer, haccepted, by simp⟩
    · refine ⟨earlier, last, later ++ [stage], by simp, hanswer, haccepted, ?_⟩
      simpa [or_imp, forall_and] using ⟨hlater, hidle⟩

theorem Answer.Accepted.outcome {answer : Answer} (h : answer.Accepted) : ∃ r, answer = .outcome r := by
  cases answer with
  | outcome r => exact ⟨r, rfl⟩
  | _ => exact h.elim

theorem Phase.answered_of_not_accepted {phase : Phase} {answer : Answer} (h : ¬answer.Accepted) :
    phase.answered answer = phase := by
  cases answer with
  | outcome r =>
    cases r with
    | ok report => exact absurd trivial h
    | error cause => cases cause <;> first | rfl | exact absurd trivial h
  | _ => rfl

/-- A reset is forgotten by the next command, a refusal is never remembered. -/
theorem Resting.ask (h : Resting stages c) (hreset : stage.request = .reset → stage.answer = .nothing)
    (hc : c'.Rests (c.phase.following stage.request stage.answer)) : Resting (stages ++ [stage]) c' := by
  have hexpectation := hc.disarmed.idle_or_fired
  have hphase := hc.phase_eq
  by_cases hrequest : stage.request = .reset
  · have hready : c'.phase = .ready := by rw [hphase, hrequest, Phase.following]
    have hnone : ∀ r, ¬LastOutcome (stages ++ [stage]) r := by
      intro r hr
      rcases lastOutcome_concat.mp hr with ⟨-, haccepted⟩ | ⟨hidle, -⟩
      · rw [hreset hrequest] at haccepted
        exact haccepted
      · exact hidle.request_ne hrequest
    exact ⟨by simp [hready], by simp [hready, hnone], by simp [hready, hnone], by simp [hready, hnone], hexpectation⟩
  have hfollowing : c'.phase = c.phase.answered stage.answer := by
    rw [hphase, Phase.following_of_ne hrequest]
  by_cases haccepted : stage.answer.Accepted
  · obtain ⟨r, hr⟩ := haccepted.outcome
    have hidle : ¬stage.Idle := fun hidle => hidle.not_accepted haccepted
    have hlast : ∀ r', LastOutcome (stages ++ [stage]) r' ↔ r = r' := by
      intro r'
      rw [lastOutcome_concat, and_iff_left haccepted, hr, Answer.outcome.injEq]
      simp [hidle]
    rw [hr] at hfollowing haccepted
    cases r with
    | ok report =>
      have hdone : c'.phase = .done := hfollowing
      exact ⟨by simp [hdone], by simp [hdone, hlast], by simp [hdone, hlast], by simp [hdone, hlast], hexpectation⟩
    | error cause =>
      have hfaulted : c'.phase = .faulted := by
        rw [hfollowing]
        cases cause <;> first | rfl | exact haccepted.elim
      exact ⟨by simp [hfaulted], by simp [hfaulted, hlast], by simp [hfaulted, hlast], by simp [hfaulted, hlast],
        hexpectation⟩
  · rw [Phase.answered_of_not_accepted haccepted] at hfollowing
    have hlast : ∀ r, LastOutcome (stages ++ [stage]) r ↔ LastOutcome stages r := by
      intro r
      have hidle : stage.Idle := ⟨hrequest, haccepted⟩
      simp [lastOutcome_concat, hidle, haccepted]
    refine ⟨hfollowing ▸ h.phase, ?_, ?_, ?_, hexpectation⟩
    · simp only [hfollowing, hlast, h.ready]
    · simp only [hfollowing, hlast, h.done]
    · simp only [hfollowing, hlast, h.faulted]

theorem tenure_resting {x z : Controller × σ} (h : Tenure follows stirs x stages z) (hx : Standing x.1)
    (hrests : x.1.Rests .ready) : Standing z.1 ∧ Resting stages z.1 := by
  induction h with
  | start =>
    have hnone : ∀ r, ¬LastOutcome ([] : List (Stage σ)) r := by
      rintro r ⟨earlier, stage, later, hsplit, -⟩
      simp at hsplit
    refine ⟨hx, ?_⟩
    exact ⟨by simp [hrests.phase_eq], by simp [hrests.phase_eq, hnone], by simp [hrests.phase_eq, hnone],
      by simp [hrests.phase_eq, hnone], hrests.disarmed.idle_or_fired⟩
  | stir _ _ ih => exact ih
  | @ask stages c c' s s' answer ms request _ hask ih =>
    obtain ⟨hc, hresting⟩ := ih
    have hdisarmed : c.Disarmed := by
      rcases hresting.expectation with hidle | hfired
      · exact Controller.disarmed_of_idle hidle
      · exact Controller.disarmed_of_fired hfired
    have hstands := stands_request request c [] hc
    rw [request.perform_eq, Operation.ensures_bind] at hstands
    obtain ⟨hstanding', hrests', hreset⟩ :=
      hask.execution.recorded (hstands.and (ensures_respond_rests request hc hdisarmed))
    exact ⟨hstanding', hresting.ask hreset hrests'⟩

/-- Between requests the driver is ready, or done, or faulted, and awaits no fire. It is done if the last command that was
accepted since it was found, or reset, has gone well, faulted if that has failed, and ready if there was none. -/
theorem rests_between_requests {placement : Placement} {opening : Opening} {moments : List (Moment Platform σ)}
    (hfound : Passage follows (opening.find placement) s₀ moments (some c₀) s₁)
    (h : Tenure follows stirs (c₀, s₁) stages (c, s)) : Resting stages c := by
  obtain ⟨hstanding, hrests⟩ := hfound.execution.recorded (yields_find_rests placement opening []) c₀ rfl
  exact (tenure_resting h hstanding hrests).2

/-- A controller is discovered, seeks, and is then asked for something that no controller does. -/
theorem rests_between_requests_refused : ∃ (m₁ m : Simulated) (c₀ c : Controller)
    (moments : List (Moment Platform Simulated)) (stages : List (Stage Simulated)),
    Passage Simulated.restless.follows (Opening.discover.find ⟨0x3F0, some 6, some 2⟩) {} moments (some c₀) m₁ ∧
      Tenure Simulated.restless.follows Simulated.Reacts (c₀, m₁) stages (c, m) ∧
      stages.map (·.request) = [.execute (.seek 3), .execute (.readId 2)] ∧ Resting stages c ∧ c.phase = .done := by
  have hphase : let r := (Controller.discover ⟨0x3F0, some 6, some 2⟩).run Simulated.machine {}
      r.1.map (fun c =>
        let r := ((Request.execute (.seek 3)).respond.run c).run Simulated.machine r.2
        (((Request.execute (.readId 2)).respond.run r.1.2).run Simulated.machine r.2).1.2.phase) = some .done := by
    decide +kernel
  obtain ⟨moments, hopen⟩ :=
    Simulated.keepsTo_restless.passage (Opening.discover.find ⟨0x3F0, some 6, some 2⟩) {}
  change Passage _ _ _ _ ((Controller.discover ⟨0x3F0, some 6, some 2⟩).run Simulated.machine {}).1
    ((Controller.discover ⟨0x3F0, some 6, some 2⟩).run Simulated.machine {}).2 at hopen
  generalize (Controller.discover ⟨0x3F0, some 6, some 2⟩).run Simulated.machine {} = result at hphase hopen
  obtain ⟨found, m₁⟩ := result
  obtain ⟨c₀, hfound, hc⟩ := Option.map_eq_some_iff.mp hphase
  replace hfound : found = some c₀ := hfound
  rw [hfound] at hopen
  obtain ⟨moments₁, hseek⟩ := Simulated.keepsTo_restless.passage ((Request.execute (.seek 3)).respond.run c₀) m₁
  dsimp only at hc
  generalize ((Request.execute (.seek 3)).respond.run c₀).run Simulated.machine m₁ = sought at hc hseek
  obtain ⟨⟨answer, c₁⟩, m₂⟩ := sought
  obtain ⟨moments₂, hrefused⟩ := Simulated.keepsTo_restless.passage ((Request.execute (.readId 2)).respond.run c₁) m₂
  have htenure : Tenure Simulated.restless.follows Simulated.Reacts (c₀, m₁) _ (_, _) :=
    (Tenure.start.ask _ hseek).ask _ hrefused
  exact ⟨m₁, _, c₀, _, moments, _, hopen, htenure, rfl, rests_between_requests hopen htenure, hc⟩

end Diskette
