import Diskette.Proofs.Conduct.Enduring
import Diskette.Proofs.Failing

/-!
Commands off the DMA path. No line is watched for their end, so what notices it is a look at the status.
-/
namespace Diskette

variable {α β : Type} {c : Controller} {t : History Platform}

abbrev OffChannel (c : Controller) (_ : History Platform) : Prop := c.path = .port

theorem steady_offChannel : Steady recorded OffChannel := by
  refine ⟨?_, fun _ hc => ⟨trivial, fun _ _ _ => hc⟩⟩
  intro c c' s hwiring hc
  exact (Controller.path_of_wiring hwiring).trans hc

/-- Off the DMA path, the report of an attempt that goes well speaks of polling. -/
def Attempt.Polls (a : Attempt Report) : Prop :=
  ∀ c t, c.path = .port →
    Attempt.Ensures recorded a (fun report _ _ => report.endedBy = .polling) (fun _ _ _ => True) c t

def Delivery.Polls (d : Delivery Report) : Prop :=
  ∀ taken c t, c.path = .port → Delivery.Ensures recorded d
    (fun report _ _ _ => report.endedBy = .polling) (fun _ _ _ _ => True) taken c t

theorem Attempt.Polls.bind {a : Attempt α} {f : α → Attempt Report}
    (h : Attempt.Keeps recorded OffChannel (fun _ => OffChannel) a) (hf : ∀ x, (f x).Polls) : (a >>= f).Polls := by
  intro c t hc
  rw [Attempt.ensures_bind]
  exact (h c t hc).mono (fun x c' t' => hf x c' t') fun _ _ _ _ => trivial

theorem Delivery.Polls.bind {d : Delivery α} {f : α → Delivery Report}
    (h : Delivery.Keeps recorded OffChannel (fun _ => OffChannel) d) (hf : ∀ x, (f x).Polls) : (d >>= f).Polls := by
  intro taken c t hc
  rw [Delivery.ensures_bind]
  exact (h taken c t hc).mono (fun x l c' t' => hf x l c' t') fun _ _ _ _ _ => trivial

theorem Delivery.Polls.attempt {a : Attempt Report} (h : a.Polls) : (Delivery.attempt a).Polls := by
  intro taken c t hc
  rw [Delivery.ensures_attempt]
  exact h c t hc

/-- A wait for no line is not ended by an interrupt. -/
theorem Expectation.yields_wait (e : Expectation) (poll : Routine Bool) (ms : Nat) :
    Yields (e.wait none poll ms) fun r => r.1 ≠ .interrupt := by
  have hwatch : ∀ last, Yields (e.watch none poll last) fun r => r ≠ some .interrupt := by
    intro last
    have hasked : Yields (do return if ← poll then some WaitEnd.polled else none : Routine _)
        fun r => r ≠ some .interrupt := by
      refine yields_bind fun b => yields_done ?_
      cases b with
      | true => exact nofun
      | false => exact nofun
    cases e <;> exact hasked
  induction ms with
  | zero =>
    intro t
    refine Program.ensures_bind.mpr ((hwatch true t).mono ?_)
    rintro (_ | result) t' hr
    · exact nofun
    · exact fun hresult => hr (congrArg some hresult)
  | succ ms ih =>
    intro t
    refine Program.ensures_bind.mpr ((hwatch false t).mono ?_)
    rintro (_ | result) t' hr
    · exact yields_bind (fun _ => ih) t'
    · exact fun hresult => hr (congrArg some hresult)

namespace Operation

theorem ensures_awaitEnd_offChannel (ms : Nat) (settled : MainStatus → Bool) (hc : c.path = .port) :
    Attempt.Ensures recorded (awaitEnd ms settled) (fun sign c' _ => sign = .polling ∧ c'.path = .port)
      (fun _ _ _ => True) c t := by
  simp only [awaitEnd, Attempt.ensures_bind, Attempt.ensures_setPhase, Attempt.ensures_getThe,
    Attempt.ensures_lift, Attempt.ensures_modify, hc, if_neg (by decide : ¬DataPath.port = .channel)]
  apply (Expectation.yields_wait _ _ _ t).mono
  rintro ⟨result, expectation⟩ t' hresult
  cases result with
  | interrupt => exact absurd rfl hresult
  | polled => exact And.intro rfl rfl
  | timedOut => trivial

theorem polls_runSeek (command : Command) (bytes : List UInt8) (drive : Drive) :
    (runSeek command bytes drive).Polls := by
  refine .bind (fun _ _ hc => hc) fun x => ?_
  refine .bind (steady_offChannel.enduring.sendBytes _ _) fun _ c t hc => ?_
  refine Attempt.ensures_bind.mpr ((ensures_awaitEnd_offChannel _ _ hc).mono ?_ fun _ _ _ => id)
  rintro _ c' t' ⟨rfl, hc'⟩
  have hrest : Attempt.Polls (do
      let _ ← takeResult command.resultLength
      let result ← senseHead
      return {
        result := result.toList
        status := (← getThe Controller).status
        transferred := 0
        endedBy := .polling }) :=
    .bind (steady_offChannel.calm.takeResult _) fun _ =>
      .bind steady_offChannel.enduring.senseHead fun _ _ _ _ => rfl
  exact hrest c' t' hc'

theorem polls_runImmediate (command : Command) (bytes : List UInt8) :
    (runImmediate command bytes).Polls := by
  refine .bind (steady_offChannel.enduring.sendBytes _ _) fun _ => ?_
  refine .bind (steady_offChannel.calm.awaitAnswer _) fun _ => ?_
  refine .bind (steady_offChannel.calm.takeResult _) fun result => ?_
  exact .bind (steady_offChannel.enduring.absorb command result) fun _ _ _ _ => rfl

theorem polls_conclude (span : SectorSpan) (t : Transfer) (result : ResultBytes (.exactly maxResult))
    (transferred : Nat) : (conclude span t result transferred .polling).Polls := by
  have hreport : Attempt.Polls (do
      log (.moved transferred t.direction span)
      return {
        result := result.toList
        status := (← getThe Controller).status
        transferred
        endedBy := .polling }) :=
    .bind (.operation (steady_offChannel.calm.log _)) fun _ _ _ _ => rfl
  refine .bind (Alert.checkStatus _ result) fun _ => ?_
  split
  · exact .bind (.throw fun _ _ hc => hc) fun _ => hreport
  · exact hreport

theorem polls_transferByPort (bytes : List UInt8) (span : SectorSpan) (t : Transfer) :
    (transferByPort bytes span t).Polls := by
  have hreport : ∀ moved, Delivery.Polls (do
      let result ← .attempt receiveStatus
      .attempt (conclude span t result moved .polling)) :=
    fun moved => .bind (.attempt steady_offChannel.calm.receiveStatus) fun result =>
      .attempt (polls_conclude span t result moved)
  refine .bind (.attempt (steady_offChannel.enduring.sendBytes _ _)) fun _ => ?_
  refine .bind (.operation (steady_offChannel.calm.setPhase _)) fun _ taken c t hc => ?_
  rw [Delivery.ensures_bind, Delivery.ensures_getThe, Delivery.ensures_bind]
  refine (steady_offChannel.enduring.stepSectors span _ taken hc).mono ?_ fun _ _ _ _ _ => trivial
  intro moved taken' c' t' hc'
  split
  · trivial
  · exact hreport moved taken' c' t' hc'

theorem polls_transfer (bytes : List UInt8) (span : SectorSpan) (t : Transfer) :
    (transfer bytes span t).Polls := by
  intro taken c s hc
  rw [transfer, Delivery.ensures_bind, Delivery.ensures_getThe]
  refine Delivery.Polls.bind (.attempt steady_offChannel.enduring.agreeOnPath) (fun _ => ?_) taken c s hc
  split
  · simp_all
  · exact polls_transferByPort _ _ _

theorem polls_carryOut (command : Command) (bytes : List UInt8) (t : Option Transfer) :
    (carryOut command bytes t).Polls := by
  intro taken c s hc
  rw [carryOut, Delivery.ensures_bind, Delivery.ensures_getThe]
  refine Delivery.Polls.bind (.operation (steady_offChannel.enduring.readyDrive command _)) (fun _ => ?_) taken c s hc
  refine .bind (.operation steady_offChannel.enduring.makeReceptive) fun _ => ?_
  split
  · exact polls_transfer _ _ _
  · split
    · exact .attempt (polls_runSeek _ _ _)
    · exact .attempt (polls_runImmediate _ _)

end Operation
end Diskette
