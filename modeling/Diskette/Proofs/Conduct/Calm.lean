import Diskette.Proofs.Calls
import Diskette.Proofs.Upkeep

/-!
Operations that neither write a register nor touch the interrupt line. A condition that depends on nothing
they change is kept by all of them, in any surroundings: by the looks and waits on the way, and by what takes in
the reports of commands.
-/
namespace Diskette

variable {α σ : Type} {E : Surroundings Platform σ} {K : Controller → σ → Prop} {c c' : Controller} {s : σ}
  {base : UInt16} {channel : Option UInt8}

/-- The registers of a controller that are there to be read. -/
def Port.Reads (base port : UInt16) : Prop := ∃ offset ∈ ([0, 1, 2, 4, 5, 7] : List UInt16), port = base + offset

/-- Calls that read no port but the registers of a controller, write none, and leave the interrupt controller, the
handlers, the lines and the bounce buffer alone. Of the DMA channels they turn to one at the most, and they do not arm
it. -/
def Plain (base : UInt16) (channel : Option UInt8) : Platform.Call → Prop
  | .channel number call => channel = some number ∧ ¬call.Arms
  | .input port => Port.Reads base port
  | .memory call => call.Spares
  | .delay _ | .suppress | .resume _ | .log _ _ => True
  | _ => False

/-- Plain calls that let no more than a millisecond go by. -/
def Brief (base : UInt16) (channel : Option UInt8) : Platform.Call → Prop
  | .delay ms => ms = 1
  | call => Plain base channel call

/-- Calls that go to the processor, the memory and the log, and to no device. -/
def Inward : Platform.Call → Prop
  | .memory call => call.Spares
  | .suppress | .resume _ | .log _ _ => True
  | _ => False

theorem plain_of_brief {call : Platform.Call} (h : Brief base channel call) : Plain base channel call := by
  cases call <;> first | exact h | trivial

theorem brief_of_inward {call : Platform.Call} (h : Inward call) : Brief base channel call := by
  cases call <;> first | exact h.elim | exact h

namespace Port

theorem reads_statusA : Reads base (statusA base) := ⟨0, by simp, by simp [statusA]⟩

theorem reads_statusB : Reads base (statusB base) := ⟨1, by simp, rfl⟩

theorem reads_digitalOutput : Reads base (digitalOutput base) := ⟨2, by simp, rfl⟩

theorem reads_mainStatus : Reads base (mainStatus base) := ⟨4, by simp, rfl⟩

theorem reads_data : Reads base (data base) := ⟨5, by simp, rfl⟩

theorem reads_digitalInput : Reads base (digitalInput base) := ⟨7, by simp, rfl⟩

end Port

/-- A controller but for where it is in a command. -/
def Controller.stance (c : Controller) : Controller := { c with phase := .ready, expectation := .idle }

/-- A controller but for what commands report, and for where it is in a command. -/
def Controller.footing (c : Controller) : Controller :=
  { c with status := {}, cylinder := 0, version := none, phase := .ready, expectation := .idle }

/-- A condition on a controller that inward calls keep, and that does not depend on where it is in a command. -/
structure Sedate (E : Surroundings Platform σ) (K : Controller → σ → Prop) : Prop where
  stance : ∀ {c c' s}, c'.stance = c.stance → K c s → K c' s
  inward : ∀ {c s call}, Inward call → K c s → E.permits s call ∧ ∀ r s', E.follows s call r s' → K c s'

/-- A condition that brief calls keep as well. -/
structure Alert (E : Surroundings Platform σ) (K : Controller → σ → Prop) : Prop extends Sedate E K where
  brief : ∀ {c s call}, Brief c.base c.channel call → K c s →
    E.permits s call ∧ ∀ r s', E.follows s call r s' → K c s'
  inward hcall hK := brief (brief_of_inward hcall) hK

/-- A condition that plain calls keep, however long they take. -/
structure Patient (E : Surroundings Platform σ) (K : Controller → σ → Prop) : Prop extends Alert E K where
  plain : ∀ {c s call}, Plain c.base c.channel call → K c s →
    E.permits s call ∧ ∀ r s', E.follows s call r s' → K c s'
  brief hcall hK := plain (plain_of_brief hcall) hK

/-- A condition on a controller that plain calls keep, and that is about its footing only. -/
structure Calm (E : Surroundings Platform σ) (K : Controller → σ → Prop) : Prop extends Patient E K where
  footing : ∀ {c c' s}, c'.footing = c.footing → K c s → K c' s

theorem Controller.footing_of_stance (h : c'.stance = c.stance) : c'.footing = c.footing := by
  change c'.stance.footing = c.stance.footing
  rw [h]

theorem calm_of_footing (hfooting : ∀ {c c' s}, c'.footing = c.footing → K c s → K c' s)
    (hplain : ∀ {c s call}, Plain c.base c.channel call → K c s → E.permits s call ∧ ∀ r s', E.follows s call r s' → K c s') :
    Calm E K where
  stance hc := hfooting (Controller.footing_of_stance hc)
  plain := hplain
  footing := hfooting

theorem plain_of_looks {call : Platform.Call} (h : Fifo.Looks base call) : Plain base channel call := by
  cases call with
  | input port =>
    obtain rfl : port = Port.mainStatus base := h
    exact Port.reads_mainStatus
  | _ => first | exact h.elim | trivial

theorem brief_of_listens {call : Platform.Call} (h : Fifo.Listens base call) : Brief base channel call := by
  cases call with
  | input port =>
    obtain rfl | rfl : port = Port.mainStatus base ∨ port = Port.data base := h
    · exact Port.reads_mainStatus
    · exact Port.reads_data
  | _ => first | exact h.elim | exact h

theorem brief_of_glances {call : Platform.Call} (h : Fifo.Glances base call) : Brief base channel call :=
  brief_of_listens (Fifo.listens_of_glances h)

theorem only_receive_brief (n : ResultLength) : (Fifo.receive base n).Only (Brief base channel) :=
  (Fifo.listens_receive n).mono fun _ => brief_of_listens

theorem only_readSectors_brief (size count : Nat) : (Operation.readSectors base size count).Only (Brief base channel) :=
  (Operation.listens_readSectors size count).mono fun _ => brief_of_listens

theorem only_receive_plain (n : ResultLength) : (Fifo.receive base n).Only (Plain base channel) :=
  (only_receive_brief n).mono fun _ => plain_of_brief

namespace Sedate

theorem modify {f : Controller → Controller} (h : Sedate E K) (hf : ∀ c, (f c).stance = c.stance) :
    Operation.Keeps E K (modify f) := .modify fun c _ => h.stance (hf c)

theorem setPhase (h : Sedate E K) (phase : Phase) : Operation.Keeps E K (Operation.setPhase phase) :=
  h.modify fun _ => rfl

/-- What goes to no device. -/
theorem within {p : Routine α} (h : Sedate E K) (hp : p.Only Inward) (hK : K c s) : p.Ensures E (fun _ => K c) s :=
  hp.ensures (fun _ _ hcall hs => h.inward hcall hs) hK

theorem log (h : Sedate E K) (event : Log.Event) : Operation.Keeps E K (Operation.log event) :=
  .get_bind fun c s hK => by
    rw [Operation.ensures_lift]
    exact h.within (.perform (by trivial)) hK

end Sedate

namespace Alert

theorem routine {p : Routine α} (h : Alert E K) (hp : p.Only (Brief c.base c.channel)) (hK : K c s) :
    p.Ensures E (fun _ => K c) s :=
  hp.ensures (fun _ _ hcall hs => h.brief hcall hs) hK

theorem input {port : UInt16} (h : Alert E K) (hport : Port.Reads c.base port) (hK : K c s) :
    (Platform.input port).Ensures E (fun _ => K c) s := h.routine (.perform hport) hK

theorem glances {p : Routine α} (h : Alert E K) (hp : p.Only (Fifo.Glances c.base)) (hK : K c s) :
    p.Ensures E (fun _ => K c) s :=
  h.routine (hp.mono fun _ => brief_of_glances) hK

theorem modifyThe {f : Controller → Controller} (h : Alert E K) (hf : ∀ c, (f c).stance = c.stance) :
    Attempt.Keeps E K (fun _ => K) (modifyThe Controller f) := .modify fun c _ => h.stance (hf c)

/-- Something that is tried with the controller as it is. -/
theorem of {p : Routine (Except Failure α)} (h : Alert E K) (hp : p.Only (Brief c.base c.channel)) (hK : K c s) :
    Attempt.Ensures E (Attempt.of p) (fun _ c' s' => c' = c ∧ K c s') (fun _ => K) c s := by
  rw [Attempt.ensures_of]
  refine (h.routine hp hK).mono ?_
  rintro (_ | _) s' hK'
  · exact hK'
  · exact ⟨rfl, hK'⟩

theorem mainStatus (h : Alert E K) : Operation.Keeps E K Operation.mainStatus :=
  .get_bind fun c s hK => by
    rw [Operation.ensures_lift]
    exact h.glances Fifo.glances_readStatus hK

theorem digitalInput (h : Alert E K) : Operation.Keeps E K Operation.digitalInput :=
  .get_bind fun c s hK => by
    rw [Operation.ensures_ite]
    split
    · rw [Operation.ensures_lift]
      exact h.input Port.reads_digitalInput hK
    · exact hK

theorem ps2Status (h : Alert E K) : Operation.Keeps E K Operation.ps2Status := by
  refine .get_bind fun c s hK => ?_
  rw [Operation.ensures_ite]
  split
  · rw [Operation.ensures_bind, Operation.ensures_lift]
    refine (h.input Port.reads_statusA hK).mono fun a s₁ h₁ => ?_
    rw [Operation.ensures_bind, Operation.ensures_lift]
    exact (h.input Port.reads_statusB h₁).mono fun _ _ h₂ => h₂
  · exact hK

theorem awaitRestart (h : Alert E K) : Operation.Keeps E K Operation.awaitRestart :=
  .get_bind fun c s hK => by
    rw [Operation.ensures_bind, Operation.ensures_lift]
    apply (h.glances (Fifo.glances_awaitStatus _ _) hK).mono
    intro ready s' hK'
    rw [Operation.ensures_ite]
    split
    · exact hK'
    · exact h.log _ c s' hK'

theorem acknowledgeLine (h : Alert E K) : Operation.Keeps E K Operation.acknowledgeLine := by
  intro c s hK
  simp only [Operation.acknowledgeLine, Operation.ensures_bind, Operation.ensures_get]
  split
  · rw [Operation.ensures_lift]
    exact h.routine (.perform (by trivial)) hK
  · exact hK

theorem maskChannel (h : Alert E K) : Operation.Keeps E K Operation.maskChannel := by
  intro c s hK
  simp only [Operation.maskChannel, Operation.ensures_bind, Operation.ensures_get]
  split
  · rename_i hchannel
    rw [Operation.ensures_lift]
    exact h.routine (.perform ⟨hchannel, id⟩) hK
  · exact hK

theorem makeReceptive (h : Alert E K) (hreset : Operation.Keeps E K Operation.reset) :
    Operation.Keeps E K Operation.makeReceptive :=
  .bind h.mainStatus fun _ => .ite (fun _ => .bind (h.log _) fun _ => hreset) fun _ => .pure

theorem awaitEnd (h : Alert E K) (ms : Nat) (settled : MainStatus → Bool) :
    Attempt.Keeps E K (fun _ => K) (Operation.awaitEnd ms settled) := by
  refine .bind (.operation (h.setPhase _)) fun _ => .get_bind fun c s hK => ?_
  have hpoll : (do return settled (← Fifo.readStatus c.base) : Routine Bool).Only (Brief c.base c.channel) :=
    .bind (Fifo.glances_readStatus.mono fun _ => brief_of_glances) fun _ => .done
  rw [Attempt.ensures_bind, Attempt.ensures_lift]
  refine (h.routine (Expectation.only_wait (by rfl) (fun _ hcall => hcall) hpoll _ _ ms) hK).mono fun r s' hK' => ?_
  refine Attempt.Keeps.bind (h.modifyThe (by exact fun _ => rfl)) (fun _ => ?_) c s' hK'
  split
  · exact .pure
  · exact .pure
  · exact .throw fun _ _ hK => hK

theorem awaitResult (h : Alert E K) : Attempt.Keeps E K (fun _ => K) Operation.awaitResult :=
  .get_bind fun _ _ hK =>
    (h.of (Fifo.glances_awaitResult.mono fun _ => brief_of_glances) hK).mono (fun _ _ _ h' => h'.1 ▸ h'.2)
      fun _ _ _ => id

theorem awaitAnswer (h : Alert E K) (n : ResultLength) :
    Attempt.Keeps E K (fun _ => K) (Operation.awaitAnswer n) :=
  .get_bind fun _ _ hK => (h.of ((Fifo.glances_awaitAnswer n).mono fun _ => brief_of_glances) hK).mono
    (fun _ _ _ h' => h'.1 ▸ h'.2) fun _ _ _ => id

theorem takeResult (h : Alert E K) (n : ResultLength) :
    Attempt.Keeps E K (fun _ => K) (Operation.takeResult n) := by
  refine .bind (.operation (h.setPhase _)) fun _ => .get_bind fun c s hK => ?_
  have hreceive : (Platform.uninterrupted (Fifo.receive c.base n)).Only (Brief c.base c.channel) :=
    Platform.only_uninterrupted (by trivial) (by intro; trivial) (only_receive_brief n)
  rw [Attempt.ensures_bind]
  refine (h.of hreceive hK).mono ?_ fun _ _ _ => id
  rintro result _ s₁ ⟨rfl, h₁⟩
  rw [Attempt.ensures_bind]
  refine (h.of (Fifo.glances_finish.mono fun _ => brief_of_glances) h₁).mono ?_ fun _ _ _ => id
  rintro _ _ s₂ ⟨rfl, h₂⟩
  exact h₂

theorem checkStatus (kind : CommandKind) (result : ResultBytes (.exactly maxResult)) :
    Attempt.Keeps E K (fun _ => K) (Operation.checkStatus kind result) := by
  unfold Operation.checkStatus
  split
  · exact .throw fun _ _ hK => hK
  · exact .pure

theorem conclude (h : Alert E K) (span : SectorSpan) (t : Transfer) (result : ResultBytes (.exactly maxResult))
    (transferred : Nat) (endedBy : EndSign) :
    Attempt.Keeps E K (fun _ => K) (Operation.conclude span t result transferred endedBy) := by
  refine .bind (checkStatus _ result) fun _ => ?_
  have hreport : Attempt.Keeps E K (fun _ => K) (do
      Operation.log (.moved transferred t.direction span)
      return {
        result := result.toList
        status := (← getThe Controller).status
        transferred
        endedBy } : Attempt Report) :=
    .bind (.operation (h.log _)) fun _ => .get_bind fun _ _ hK => hK
  split
  · exact .bind (.throw fun _ _ hK => hK) fun _ => hreport
  · exact hreport

theorem moved {channel : UInt8} (h : Alert E K) (hchannel : ∀ c s, K c s → c.channel = some channel)
    (requested : Nat) : Delivery.Keeps E K (fun _ => K) (liftM (Channel.moved channel requested) : Delivery Nat) := by
  refine .lift fun c s hK => h.routine ?_ hK
  have hasks : ∀ call : Channel.Call, ¬call.Arms → (Platform.channel channel call).Only (Brief c.base c.channel) :=
    fun _ hcall => .perform ⟨hchannel c s hK, hcall⟩
  exact .bind (hasks _ id) fun _ => .bind (hasks _ id) fun _ => .ite .done .done

theorem emptyBounce (h : Alert E K) (t : Transfer) (moved : Nat) :
    Delivery.Keeps E K (fun _ => K) (Operation.emptyBounce t moved) := by
  unfold Operation.emptyBounce
  split
  · exact .pure
  · refine .bind (.lift fun c s hK => h.routine (.perform (by trivial)) hK) fun _ => ?_
    exact fun _ _ _ hK => hK

end Alert

namespace Patient

theorem routine {p : Routine α} (h : Patient E K) (hp : p.Only (Plain c.base c.channel)) (hK : K c s) :
    p.Ensures E (fun _ => K c) s :=
  hp.ensures (fun _ _ hcall hs => h.plain hcall hs) hK

/-- A motor takes its time to start. -/
theorem readyDrive (h : Patient E K) (command : Command) (drive : Drive) (hmotor : Operation.Keeps E K
    (Operation.shadowed fun s => s.writeOutput (s.output.setMotor drive true))) :
    Operation.Keeps E K (Operation.readyDrive command drive) := by
  have hstart : Operation.Keeps E K (Operation.startMotor drive) :=
    .get_bind fun c s hK => by
      rw [Operation.ensures_ite]
      split
      · exact hK
      · refine Operation.Keeps.bind (h.log _) (fun _ => .bind hmotor fun _ => ?_) c s hK
        exact .lift fun c s hK => h.routine (.perform (by trivial)) hK
  exact .ite (fun _ => hstart) fun _ => .pure

end Patient

namespace Calm

theorem modify {f : Controller → Controller} (h : Calm E K) (hf : ∀ c, (f c).footing = c.footing) :
    Operation.Keeps E K (modify f) := .modify fun c _ => h.footing (hf c)

theorem modifyThe {f : Controller → Controller} (h : Calm E K) (hf : ∀ c, (f c).footing = c.footing) :
    Attempt.Keeps E K (fun _ => K) (modifyThe Controller f) := .modify fun c _ => h.footing (hf c)

theorem absorbStatus (h : Calm E K) (result : ResultBytes (.exactly maxResult)) :
    Operation.Keeps E K (Operation.absorbStatus result) := h.modify (by exact fun _ => rfl)

theorem receiveStatus (h : Calm E K) : Attempt.Keeps E K (fun _ => K) Operation.receiveStatus :=
  .bind (h.takeResult _) fun result => .bind (.operation (h.absorbStatus result)) fun _ => .pure

end Calm
end Diskette
