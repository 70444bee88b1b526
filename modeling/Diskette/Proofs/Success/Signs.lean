import Diskette.Proofs.Traffic

/-!
The signs that a command is over. The status says that the controller is not busy any more, and where an interrupt is
awaited the counter of the line has gone on since the line was made ready for the command.
-/
namespace Diskette

variable {base : UInt16} {c : Controller} {t u : History Platform} {l : Line} {bytes : List UInt8}

/-- The main status, where it is read. -/
@[simp] def looked (base : UInt16) : Exchange Platform → Option MainStatus
  | ⟨.input port, byte⟩ => if port = Port.mainStatus base then some ⟨byte⟩ else none
  | _ => none

/-- The status that was read last is not busy. -/
def AtRest (base : UInt16) (t : History Platform) : Prop :=
  ∃ status, latest (looked base) t = some status ∧ status.busy = false

namespace Fifo

theorem ensures_readStatus_looked : (readStatus base).Ensures recorded
    (fun status t' => latest (looked base) t' = some status) t := by
  refine Program.ensures_bind.mpr (Program.ensures_recorded.mpr fun byte => ?_)
  simp

/-- A wait that goes well ends with a look that was good. -/
theorem ensures_awaitStatusFor_looked (ready : MainStatus → Bool) (delays : Nat) :
    (awaitStatusFor base ready delays).Ensures recorded (fun ok t' => ok = true →
      ∃ status, latest (looked base) t' = some status ∧ ready status = true) t := by
  induction delays generalizing t with
  | zero =>
    refine Program.ensures_bind.mpr (ensures_readStatus_looked.mono fun status t' hlast hready => ?_)
    exact ⟨status, hlast, hready⟩
  | succ delays ih =>
    refine Program.ensures_bind.mpr (ensures_readStatus_looked.mono fun status t' hlast => ?_)
    rw [Program.ensures_ite]
    split
    · rename_i hready
      exact fun _ => ⟨status, hlast, hready⟩
    · exact Program.ensures_bind.mpr (Program.ensures_recorded.mpr fun _ => ih)

theorem ensures_finish_atRest : (finish base).Ensures recorded (fun r t' => r = .ok () → AtRest base t') t := by
  refine Program.ensures_bind.mpr ((Program.ensures_execution _ t).mono fun _ t₁ _ => ?_)
  refine Program.ensures_bind.mpr ((ensures_awaitStatusFor_looked _ _).mono fun ended t₂ hended => ?_)
  cases ended with
  | false => exact nofun
  | true =>
    obtain ⟨status, hlast, hidle⟩ := hended rfl
    exact fun _ => ⟨status, hlast, by simpa using hidle⟩

end Fifo

/-- The line was made ready for a command, so many fires are expected, and the command has been sent since. -/
def ArmedFor (base : UInt16) (bytes : List UInt8) (l : Line) (e : Expectation) (t : History Platform) : Prop :=
  ∃ (before : History Platform) (n : UInt32) (during : History Platform), e = .armed (n + 1) ∧
    t = before ++ ⟨.memory (.acknowledge l.id), ()⟩ :: ⟨.memory (.fired l.id), n⟩ :: during ∧
    bytesWritten base during = bytes

/-- The line was made ready for a command, and its counter has gone on since; the command was sent in between. -/
def FiredFor (base : UInt16) (bytes : List UInt8) (l : Line) (t : History Platform) : Prop :=
  ∃ (before : History Platform) (n : UInt32) (during : History Platform) (n' : UInt32) (later : History Platform),
    t = before ++ ⟨.memory (.acknowledge l.id), ()⟩ :: ⟨.memory (.fired l.id), n⟩ :: during ++
      ⟨.memory (.fired l.id), n'⟩ :: later ∧
    bytesWritten base during = bytes ∧ caughtUp n' (n + 1) = true

theorem FiredFor.append (h : FiredFor base bytes l t) (u : History Platform) : FiredFor base bytes l (t ++ u) := by
  obtain ⟨before, n, during, n', later, rfl, hsent, hfired⟩ := h
  exact ⟨before, n, during, n', later ++ u, by simp, hsent, hfired⟩

/-- The window of a command that interrupts makes the line ready for it. -/
theorem Operation.CommandWindow.armedFor {load : Option ChannelLoad} {expectation : Expectation}
    (h : CommandWindow c true load expectation bytes bytes.length u) (hline : c.line = some l) :
    ArmedFor c.base bytes l expectation (t ++ u) := by
  obtain ⟨wasEnabled, loading, expecting, talk, rfl, -, hexpect, -, htalk⟩ := h
  have hready : (expectEnd c true).Ensures recorded (fun e v => ∃ n, e = .armed (n + 1) ∧
      v = [⟨.memory (.acknowledge l.id), ()⟩, ⟨.memory (.fired l.id), n⟩]) [] := by
    simp only [expectEnd, hline, Expectation.arm, Line.acknowledge, Line.fired, Platform.memory, Program.call_bind,
      Program.done_bind, Program.ensures_recorded, Program.pure_eq, Program.ensures_done]
    exact fun _ n => ⟨n, rfl, rfl⟩
  obtain ⟨n, rfl, rfl⟩ := hexpect.recorded hready
  have hsent : Traffic c.base (talk ++ [⟨.resume wasEnabled, ()⟩]) [] bytes := by
    simpa using htalk.append (.of_silent (t := [⟨.resume wasEnabled, ()⟩]) (by simp [OnPort]))
  exact ⟨t ++ ⟨.suppress, wasEnabled⟩ :: loading, n, talk ++ [⟨.resume wasEnabled, ()⟩], rfl, by simp,
    hsent.written_eq⟩

/-- The calls of a look that finds the line in order, and its counter where it is expected. -/
def Line.closing (l : Line) (n : UInt32) : History Platform :=
  [⟨.memory (.degraded l.id), false⟩, ⟨.memory (.fired l.id), n⟩, ⟨.memory (.acknowledge l.id), ()⟩]

namespace Expectation

/-- The counter of the line has caught up with what is expected, by the last look at it. -/
def CaughtUp (e : Expectation) (line : Option Line) (t : History Platform) : Prop :=
  ∃ l ∈ line, ∃ expected n before, e = .armed expected ∧ t = before ++ l.closing n ∧ caughtUp n expected = true

variable {e e' : Expectation} {line : Option Line} {poll : Routine Bool} {last : Bool} {result : WaitEnd}

theorem CaughtUp.later (h : e.CaughtUp line u) (t : History Platform) : e.CaughtUp line (t ++ u) := by
  obtain ⟨l, hl, expected, n, before, he, rfl, hfired⟩ := h
  exact ⟨l, hl, expected, n, t ++ before, he, by simp, hfired⟩

/-- An answer of a look at the hardware is not an interrupt. -/
theorem not_interrupt_of_polled {t : History Platform}
    (h : Execution (do return if ← poll then some .polled else none : Routine (Option WaitEnd)) t (some .interrupt)) :
    False := by
  obtain ⟨_, _, ready, -, -, h⟩ := Execution.of_bind h
  obtain ⟨-, hend⟩ := Execution.of_done h
  cases ready <;> exact absurd hend nofun

theorem caughtUp_of_watch (h : Execution (e.watch line poll last) t (some .interrupt)) : e.CaughtUp line t := by
  obtain ⟨t₁, t₂, trusted, rfl, htrusted, hrest⟩ := Execution.of_bind h
  cases trusted with
  | none => exact (not_interrupt_of_polled hrest).elim
  | some trusted =>
    obtain ⟨l, expected⟩ := trusted
    have hown : l ∈ line ∧ e = .armed expected ∧ t₁ = [⟨.memory (.degraded l.id), false⟩] := by
      unfold Expectation.trusted at htrusted
      split at htrusted
      · obtain ⟨_, _, stormy, rfl, hlook, hcalm⟩ := Execution.of_bind htrusted
        obtain rfl := hlook.of_perform
        split at hcalm
        · exact absurd hcalm.of_done.2 nofun
        · rename_i hstormy
          obtain ⟨rfl, hsome⟩ := hcalm.of_done
          obtain ⟨rfl, rfl⟩ := Prod.mk.inj (Option.some.inj hsome)
          obtain rfl : stormy = false := Bool.eq_false_iff.mpr hstormy
          exact ⟨rfl, rfl, rfl⟩
      · exact absurd htrusted.of_done.2 nofun
    obtain ⟨hl, rfl, rfl⟩ := hown
    obtain ⟨t₃, t₄, n, rfl, hfired, hread⟩ := Execution.of_bind hrest
    obtain rfl := hfired.of_perform
    split at hread
    · rename_i hcaught
      obtain ⟨t₅, t₆, ⟨⟩, rfl, htaken, hend⟩ := Execution.of_bind hread
      obtain rfl := htaken.of_perform
      obtain ⟨rfl, -⟩ := hend.of_done
      exact ⟨l, hl, expected, n, [], rfl, rfl, hcaught⟩
    split at hread
    · exact (not_interrupt_of_polled hread).elim
    · exact absurd hread.of_done.2 nofun

/-- A wait that an interrupt ends has seen the counter catch up. -/
theorem caughtUp_of_wait {ms : Nat} (h : Execution (e.wait line poll ms) t (.interrupt, e')) :
    e.CaughtUp line t := by
  induction ms generalizing t with
  | zero =>
    obtain ⟨t₁, t₂, seen, rfl, hwatch, h⟩ := Execution.of_bind h
    cases seen with
    | none => exact absurd h.of_done.2 nofun
    | some result =>
      obtain ⟨rfl, hresult⟩ := h.of_done
      obtain ⟨rfl, -⟩ := Prod.mk.inj hresult
      rw [List.append_nil]
      exact caughtUp_of_watch hwatch
  | succ ms ih =>
    obtain ⟨t₁, t₂, seen, rfl, hwatch, h⟩ := Execution.of_bind h
    cases seen with
    | none =>
      obtain ⟨t₃, t₄, ⟨⟩, rfl, -, h⟩ := Execution.of_bind h
      exact ((ih h).later _).later _
    | some result =>
      obtain ⟨rfl, hresult⟩ := h.of_done
      obtain ⟨rfl, -⟩ := Prod.mk.inj hresult
      rw [List.append_nil]
      exact caughtUp_of_watch hwatch

end Expectation

namespace Operation

/-- The end of a command is noticed by an interrupt only if the line has fired for it. -/
theorem ensures_awaitEnd_fired (ms : Nat) (settled : MainStatus → Bool)
    (harmed : c.path = .channel → ∀ l ∈ c.line, ArmedFor c.base bytes l c.expectation t) :
    Attempt.Ensures recorded (awaitEnd ms settled) (fun sign c' t' => c'.stance = c.stance ∧
      (sign = .interrupt → c.path = .channel ∧ ∃ l ∈ c.line, FiredFor c.base bytes l t')) (fun _ _ _ => True) c t := by
  simp only [awaitEnd, Attempt.ensures_bind, Attempt.ensures_setPhase, Attempt.ensures_getThe, Attempt.ensures_lift,
    Attempt.ensures_modify]
  refine (Program.ensures_execution _ t).mono ?_
  rintro ⟨result, expectation⟩ _ ⟨u, rfl, hwait⟩
  cases result with
  | timedOut => trivial
  | polled => exact ⟨rfl, by simp⟩
  | interrupt =>
    refine ⟨rfl, fun _ => ?_⟩
    obtain ⟨l, hl, expected, n', looks, hexpected, rfl, hcaught⟩ := Expectation.caughtUp_of_wait hwait
    have hpath : c.path = .channel := by
      cases hc : c.path with
      | channel => rfl
      | port =>
        simp [hc] at hl
    rw [if_pos hpath] at hl
    obtain ⟨before, n, during, harm, rfl, hsent⟩ := harmed hpath l hl
    obtain rfl : n + 1 = expected := Expectation.armed.inj (harm.symm.trans hexpected)
    have hlooks : bytesWritten c.base (looks ++ [⟨.memory (.degraded l.id), false⟩]) = [] := by
      have hpoll : (do return settled (← Fifo.readStatus c.base) : Routine Bool).Only fun call => ¬OnPort c.base call :=
        .bind (Fifo.only_readStatus.mono fun _ => not_onPort_of_looks) fun _ => .done
      have hsilent := (Expectation.only_wait (by exact id) (by intro _ _; exact id) hpoll _ _ _).execution hwait
      refine (Traffic.of_silent fun e he => hsilent e ?_).written_eq
      rcases List.mem_append.mp he with he | he
      · exact List.mem_append_left _ he
      · exact List.mem_append_right _ (by simp [Line.closing, List.mem_singleton.mp he])
    refine ⟨hpath, l, hl, before, n, during ++ (looks ++ [⟨.memory (.degraded l.id), false⟩]), n',
      [⟨.memory (.acknowledge l.id), ()⟩], by simp [Line.closing], ?_, hcaught⟩
    rw [bytesWritten, List.filterMap_append, ← bytesWritten, hsent, hlooks, List.append_nil]

end Operation
end Diskette
