import Diskette.Proofs.Arming.Restraint
import Diskette.Proofs.Failing
import Diskette.Proofs.Traffic

/-!
What a command goes through after it has been sent: the bytes that go over the port on the way, and the count of a
channel. A step that does not go well is broken off by a failure of the controller.
-/
namespace Diskette

variable {α : Type} {x c c' : Controller} {h t u : History Platform} {read written read' written' : List UInt8}

/-- So much has gone over the port since a certain point of the record, and no channel has been armed. -/
structure Advanced (x : Controller) (h : History Platform) (read written : List UInt8) (c : Controller)
    (t : History Platform) : Prop where
  base_eq : c.base = x.base
  channel_eq : c.channel = x.channel
  grown : ∃ u, t = h ++ u ∧ Traffic x.base u read written ∧ ∀ e ∈ u, Unarmed x.channel e.call

/-- Neither moves a byte over the port nor turns to another channel, or arms one. -/
def Idle (x : Controller) (call : Platform.Call) : Prop := Unarmed x.channel call ∧ ¬OnPort x.base call

theorem idle_of_looks {call : Platform.Call} (h : Fifo.Looks x.base call) : Idle x call :=
  ⟨by cases call <;> trivial, not_onPort_of_looks h⟩

theorem unarmed_of_talks {channel : Option UInt8} {base : UInt16} {call : Platform.Call} (h : Fifo.Talks base call) :
    Unarmed channel call := by
  cases call <;> trivial

namespace Advanced

theorem start (hbase : c.base = x.base) (hchannel : c.channel = x.channel) : Advanced x t [] [] c t :=
  ⟨hbase, hchannel, [], by simp, .nil, by simp⟩

theorem append (h' : Advanced x h read written c t) (htraffic : Traffic x.base u read' written')
    (hunarmed : ∀ e ∈ u, Unarmed x.channel e.call) :
    Advanced x h (read ++ read') (written ++ written') c (t ++ u) := by
  obtain ⟨hbase, hchannel, v, rfl, hv, hvs⟩ := h'
  refine ⟨hbase, hchannel, v ++ u, List.append_assoc .., hv.append htraffic, fun e he => ?_⟩
  rcases List.mem_append.mp he with hold | hnew
  · exact hvs e hold
  · exact hunarmed e hnew

theorem of_footing (h' : Advanced x h read written c t) (hc : c'.footing = c.footing) :
    Advanced x h read written c' t := by
  have hwiring := Controller.wiring_of_footing hc
  exact ⟨(Controller.base_of_wiring hwiring).trans h'.base_eq,
    (Controller.channel_of_wiring hwiring).trans h'.channel_eq, h'.grown⟩

/-- A routine carries on from where the record stands. -/
theorem routine {p : Routine α} (h' : Advanced x h read written c t) (hp : p.Only (Unarmed x.channel)) :
    p.Ensures recorded (fun a t' => ∃ u, Execution p u a ∧ ∀ read' written', Traffic x.base u read' written' →
      Advanced x h (read ++ read') (written ++ written') c t') t := by
  refine (Program.ensures_execution p t).mono ?_
  rintro a _ ⟨u, rfl, hu⟩
  exact ⟨u, hu, fun _ _ htraffic => h'.append htraffic (hp.execution hu)⟩

theorem idle {p : Routine α} (h' : Advanced x h read written c t) (hp : p.Only (Idle x)) :
    p.Ensures recorded (fun _ => Advanced x h read written c) t := by
  refine (h'.routine (hp.mono fun _ => And.left)).mono ?_
  rintro a t' ⟨u, hu, hadvanced⟩
  simpa using hadvanced [] [] (.quiet hu hp fun _ => And.right)

end Advanced

/-- The failures of a step are the controller's, and leave the setting alone. -/
theorem AttemptHolds.lapses {a : Attempt α} {Q : α → Controller → History Platform → Prop}
    (h : ∀ x, AttemptHolds x a) (hQ : Attempt.Ensures recorded a Q (fun _ _ _ => True) c t) :
    Attempt.Ensures recorded a Q (fun cause c' _ => cause.Lapse ∧ c'.setting = c.setting) c t :=
  (hQ.and (h c.setting c t rfl)).mono (fun _ _ _ => And.left) fun _ _ _ => And.right

theorem ensures_sendCommand_advanced (bytes : List UInt8) (interrupting : Bool) (load : Option Operation.ChannelLoad)
    (hbase : c.base = x.base) (hchannel : c.channel = x.channel) :
    Attempt.Ensures recorded (Operation.sendCommand bytes interrupting load) (fun _ c' t' => ∃ window,
      Operation.CommandWindow c interrupting load c'.expectation bytes bytes.length window ∧ Traffic x.base window [] bytes ∧
        Advanced x (t ++ window) [] [] c' t') (fun _ _ _ => True) c t := by
  refine (Operation.ensures_sendCommand_window bytes interrupting load).mono ?_ fun _ _ _ _ => trivial
  rintro _ c' _ ⟨hstance, window, rfl, hwindow⟩
  have hwiring := Controller.wiring_of_footing (Controller.footing_of_stance hstance)
  have htraffic := hwindow.traffic
  rw [List.take_length, hbase] at htraffic
  exact ⟨window, hwindow, htraffic, .start ((Controller.base_of_wiring hwiring).trans hbase)
    ((Controller.channel_of_wiring hwiring).trans hchannel)⟩

theorem ensures_awaitEnd_advanced (ms : Nat) (settled : MainStatus → Bool) (h' : Advanced x h read written c t) :
    Attempt.Ensures recorded (Operation.awaitEnd ms settled) (fun _ => Advanced x h read written)
      (fun _ _ _ => True) c t := by
  unfold Operation.awaitEnd
  rw [Attempt.ensures_bind, Attempt.ensures_setPhase, Attempt.ensures_bind, Attempt.ensures_getThe,
    Attempt.ensures_bind, Attempt.ensures_lift]
  have hpoll : (do return settled (← Fifo.readStatus c.base) : Routine Bool).Only (Idle x) :=
    .bind (Fifo.only_readStatus.mono fun _ hlook => idle_of_looks (h'.base_eq ▸ hlook)) fun _ => .done
  have hc : Advanced x h read written { c with phase := .awaitingCompletion } t := h'.of_footing rfl
  refine (hc.idle (Expectation.only_wait ⟨trivial, id⟩ (fun _ _ => ⟨trivial, id⟩) hpoll _ _ _)).mono ?_
  rintro ⟨result, expectation⟩ t' hc'
  rw [Attempt.ensures_bind, Attempt.ensures_modify]
  cases result with
  | timedOut => trivial
  | _ => exact hc'.of_footing rfl

theorem ensures_awaitResult_advanced (h' : Advanced x h read written c t) :
    Attempt.Ensures recorded Operation.awaitResult (fun _ => Advanced x h read written) (fun _ _ _ => True) c t := by
  unfold Operation.awaitResult
  rw [Attempt.ensures_bind, Attempt.ensures_getThe, Attempt.ensures_of, h'.base_eq]
  refine (h'.idle (Fifo.only_awaitResult.mono fun _ => idle_of_looks)).mono ?_
  rintro (_ | _) t' hc'
  · trivial
  · exact hc'

/-- A result is the next to come over the port. -/
theorem ensures_takeResult_advanced (n : ResultLength) (h' : Advanced x h read written c t) :
    Attempt.Ensures recorded (Operation.takeResult n)
      (fun result => Advanced x h (read ++ result.toList) written) (fun _ _ _ => True) c t := by
  unfold Operation.takeResult
  rw [Attempt.ensures_bind, Attempt.ensures_setPhase, Attempt.ensures_bind, Attempt.ensures_getThe,
    Attempt.ensures_bind, Attempt.ensures_of]
  have hc : Advanced x h read written { c with phase := .receivingResult } t := h'.of_footing rfl
  have honly : (Platform.uninterrupted (Fifo.receive c.base n)).Only (Unarmed x.channel) :=
    Platform.only_uninterrupted (by trivial) (by intro; trivial)
      ((Fifo.only_receive n).mono fun _ => unarmed_of_talks)
  refine (hc.routine honly).mono ?_
  rintro (_ | result) t' ⟨u, hu, hadvanced⟩
  · trivial
  obtain ⟨v, hv, hwindow⟩ := Traffic.uninterrupted hu
  obtain ⟨bytes, htraffic, hresult⟩ := Fifo.traffic_receive hv
  have hread := hwindow htraffic
  rw [← hresult result rfl, h'.base_eq] at hread
  have hc' := hadvanced result.toList [] hread
  rw [List.append_nil] at hc'
  refine Attempt.ensures_bind.mpr (Attempt.ensures_of.mpr ?_)
  refine (hc'.idle (Fifo.only_finish.mono fun _ hlook => idle_of_looks (h'.base_eq ▸ hlook))).mono ?_
  rintro (_ | _) t'' hc''
  · trivial
  · exact hc''

theorem ensures_receiveStatus_advanced (h' : Advanced x h read written c t) :
    Attempt.Ensures recorded Operation.receiveStatus
      (fun result => Advanced x h (read ++ result.toList) written) (fun _ _ _ => True) c t := by
  unfold Operation.receiveStatus
  rw [Attempt.ensures_bind]
  refine (ensures_takeResult_advanced _ h').mono (fun result c' t' hc' => ?_) fun _ _ _ => id
  exact hc'.of_footing rfl

namespace Channel

/-- How much of a transfer has moved, by what the channel answers. -/
def count (length : Nat) (left : UInt32) (ranOut : Bool) : Nat :=
  if ranOut then length else length - min left.toNat length

/-- A channel is asked how far it has come. -/
def counting (channel : UInt8) (left : UInt32) (ranOut : Bool) : History Platform :=
  [⟨.channel channel .remaining, left⟩, ⟨.channel channel .terminalCount, ranOut⟩]

theorem count_le (length : Nat) (left : UInt32) (ranOut : Bool) : count length left ranOut ≤ length := by
  cases ranOut
  · exact Nat.sub_le ..
  · exact Nat.le_refl length

theorem ensures_moved (channel : UInt8) (length : Nat) :
    (moved channel length).Ensures recorded (fun n t' => ∃ left ranOut, t' = t ++ counting channel left ranOut ∧
      n = count length left ranOut) t := by
  simp only [moved, Platform.channel, Program.call_bind, Program.done_bind, Program.ensures_recorded,
    Program.ensures_ite, Program.pure_eq, Program.ensures_done]
  intro left ranOut
  cases ranOut
  · exact ⟨left, false, by simp [counting], rfl⟩
  · exact ⟨left, true, by simp [counting], rfl⟩

end Channel
end Diskette
