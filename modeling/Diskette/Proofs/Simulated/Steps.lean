import Diskette.Controller.Execute
import Diskette.Proofs.Reset
import Diskette.Proofs.Simulated.Fifo

/-!
The steps of a command on a simulated controller that no fault hinders. The driver and the controller
agree about the registers and about the data path, and between commands nothing is pending.
-/
namespace Diskette

open Simulated

/-- Faults that change what is seen on the way to a result, but not the result. -/
structure Simulated.Faults.Harmless (f : Faults) : Prop where
  commandLimit : f.commandLimit = none
  withholdResults : f.withholdResults = false
  channelLimit : f.channelLimit = none
  portLimit : f.portLimit = none
  verdict : f.verdict = none

/-- The controller answers where the driver thinks it does, out of reset and with the output register
that the driver has noted. -/
structure Linked (c : Controller) (k : Core) : Prop extends Core.At c.base k where
  output_eq : k.fdc.output = c.shadow.output.encode
  outOfReset : c.shadow.output.resetAsserted = false

/-- A linked controller between two commands. -/
structure Settled (c : Controller) (k : Core) : Prop extends Linked c k where
  whole : k.fdc.partialCommand = []
  command : k.fdc.stage = .command
  quiet : k.fdc.pending = []
  told : ∀ path, c.specified = some path → k.fdc.nonDma = (path == .port)

/-- The heads, what is stored, and what the machine is like, stay. -/
structure Kept (k k' : Core) : Prop where
  cylinders : k'.fdc.cylinders = k.fdc.cylinders
  disk : k'.fdc.disk = k.fdc.disk
  faults : k'.faults = k.faults
  bounce : k'.bounce.size = k.bounce.size

variable {α : Type} {c c' c₁ : Controller} {k k' k₁ : Core}

theorem Kept.refl (k : Core) : Kept k k := ⟨rfl, rfl, rfl, rfl⟩

theorem Core.Same.kept (h : Core.Same k k') : Kept k k' := ⟨h.cylinders, h.disk, h.faults, h.bounce⟩

theorem Kept.trans (h : Kept k k₁) (h' : Kept k₁ k') : Kept k k' :=
  ⟨h'.cylinders.trans h.cylinders, h'.disk.trans h.disk, h'.faults.trans h.faults, h'.bounce.trans h.bounce⟩

namespace Linked

theorem inReset (h : Linked c k) : k.fdc.inReset = false := by
  have hdecode : k.fdc.inReset = (DigitalOutput.decode k.fdc.output).resetAsserted := rfl
  rw [hdecode, h.output_eq, DigitalOutput.decode_encode]
  exact h.outOfReset

theorem gateOpen (h : Linked c k) : k.fdc.gateOpen = c.shadow.output.gate := by
  have hdecode : k.fdc.gateOpen = (DigitalOutput.decode k.fdc.output).gate := rfl
  rw [hdecode, h.output_eq, DigitalOutput.decode_encode]

theorem same (h : Linked c k) (hshadow : c'.shadow = c.shadow) (hsame : Core.Same k k') :
    Linked c' k' := by
  have hbase : c'.base = c.base := congrArg Shadow.base hshadow
  exact ⟨hbase ▸ h.toAt.same hsame, by rw [hsame.output_eq, h.output_eq, hshadow],
    hshadow ▸ h.outOfReset⟩

theorem idle (h : Linked c k) (hwhole : k.fdc.partialCommand = [])
    (hstage : k.fdc.stage = .command) : Core.Idle c.base k :=
  ⟨⟨h.toAt, h.inReset, hwhole⟩, hstage⟩

end Linked

theorem Settled.idle (h : Settled c k) : Core.Idle c.base k := h.toLinked.idle h.whole h.command

/-- The driver keeps its setting, and what it has told the controller. -/
structure Abides (c c' : Controller) : Prop where
  setting : c'.setting = c.setting
  specified : c'.specified = c.specified

theorem Abides.refl (c : Controller) : Abides c c := ⟨rfl, rfl⟩

theorem Abides.trans (h : Abides c c₁) (h' : Abides c₁ c') : Abides c c' :=
  ⟨h'.setting.trans h.setting, h'.specified.trans h.specified⟩

theorem Abides.shadow (h : Abides c c') : c'.shadow = c.shadow :=
  Controller.shadow_of_setting h.setting

theorem Abides.base (h : Abides c c') : c'.base = c.base := congrArg Shadow.base h.shadow

theorem Settled.same (h : Settled c k) (hc : Abides c c') (hsame : Core.Same k k')
    (hwhole : k'.fdc.partialCommand = []) (hcommand : k'.fdc.stage = .command)
    (hquiet : k'.fdc.pending = []) : Settled c' k' :=
  ⟨h.toLinked.same hc.shadow hsame, hwhole, hcommand, hquiet,
    fun path hpath => hsame.nonDma.trans (h.told path (hc.specified ▸ hpath))⟩

theorem Linked.abides (h : Linked c k) (hc : Abides c c') : Linked c' k :=
  h.same hc.shadow (.refl k)

theorem Settled.abides (h : Settled c k) (hc : Abides c c') : Settled c' k :=
  h.same hc (.refl k) h.whole h.command h.quiet

namespace Core

open Simulated

/-- The controller knows the data path. -/
def onPath (k : Core) (path : DataPath) : Core :=
  { k with fdc := { k.fdc with nonDma := path == .port } }

theorem core_specify {m : Simulated} (path : DataPath) :
    (m.obey (.specify (path == .port))).core = (m.core.onPath path).answer [] := rfl

/-- The controller has told of one interrupt, if there is one. -/
def sensed (k : Core) : Core := { k with fdc := { k.fdc with pending := k.fdc.pending.tail } }

/-- What it tells. -/
def senseAnswer (k : Core) : List UInt8 :=
  match k.fdc.pending with
  | [] => [Operation.nothingPending]
  | (st0, cylinder) :: _ => [st0, cylinder]

theorem same_sensed (k : Core) : Same k k.sensed := ⟨rfl, rfl, rfl, rfl, rfl, rfl, rfl, rfl⟩

theorem core_senseInterrupt {m : Simulated} :
    (m.obey .senseInterrupt).core = m.core.sensed.answer m.core.senseAnswer := by
  obtain ⟨fdc⟩ := m
  cases hpending : fdc.pending with
  | nil => simp [obey, hpending, Simulated.core, sensed, senseAnswer, Simulated.answer, answer,
      Operation.nothingPending, Fdc.answer]
  | cons e rest => simp [obey, hpending, Simulated.core, sensed, senseAnswer, Simulated.answer, answer]

theorem ensures_watch {poll : Routine Bool} (e : Expectation) (line : Option Line) (last : Bool)
    (hpoll : poll.Ensures surroundings (fun b k' => b = true ∧ k' = k) k) :
    (e.watch line poll last).Ensures surroundings
      (fun r k' => k' = k ∧ r ≠ some .timedOut ∧ (last = true → r.isSome)) k := by
  have htrusted : (e.trusted line).Only (Incidental k.fdc.base) := by
    unfold Expectation.trusted
    split
    · exact .bind (.perform (by trivial)) fun _ => .ite .done .done
    · exact .done
  have hpolled : (do return if ← poll then some WaitEnd.polled else none : Routine _).Ensures
      surroundings (fun r k' => k' = k ∧ r ≠ some .timedOut ∧ (last = true → r.isSome)) k := by
    refine Program.ensures_bind.mpr (hpoll.mono ?_)
    rintro _ _ ⟨rfl, rfl⟩
    exact ⟨rfl, by simp, by simp⟩
  refine Program.ensures_bind.mpr ((ensures_incidental htrusted).mono ?_)
  rintro (_ | ⟨l, expected⟩) k' rfl
  · exact hpolled
  · have hfired : l.fired.Only (Incidental k'.fdc.base) := .perform (by trivial)
    refine Program.ensures_bind.mpr ((ensures_incidental hfired).mono ?_)
    rintro fired k' rfl
    rw [Program.ensures_ite]
    split
    · have hacknowledge : l.acknowledge.Only (Incidental k'.fdc.base) := .perform (by trivial)
      refine Program.ensures_bind.mpr ((ensures_incidental hacknowledge).mono ?_)
      rintro _ _ rfl
      exact ⟨rfl, by simp, by simp⟩
    · cases last with
      | true => exact hpolled
      | false => exact ⟨rfl, by simp, by simp⟩

/-- Where the hardware has settled, a wait comes to its end. -/
theorem ensures_wait {poll : Routine Bool} (e : Expectation) (line : Option Line) (ms : Nat)
    (hpoll : poll.Ensures surroundings (fun b k' => b = true ∧ k' = k) k) :
    (e.wait line poll ms).Ensures surroundings (fun r k' => k' = k ∧ r.1 ≠ .timedOut) k := by
  induction ms generalizing e with
  | zero =>
    refine Program.ensures_bind.mpr ((ensures_watch e line true hpoll).mono ?_)
    rintro (_ | result) k' ⟨rfl, hr, hlast⟩
    · exact absurd (hlast rfl) (by simp)
    · exact ⟨rfl, fun h => hr (congrArg some h)⟩
  | succ ms ih =>
    refine Program.ensures_bind.mpr ((ensures_watch e line false hpoll).mono ?_)
    rintro (_ | result) k' ⟨rfl, hr, -⟩
    · have hdelay : (Platform.delay 1).Only (Incidental k'.fdc.base) := .perform (by trivial)
      refine Program.ensures_bind.mpr ((ensures_incidental hdelay).mono ?_)
      rintro _ _ rfl
      exact ih e
    · exact ⟨rfl, fun h => hr (congrArg some h)⟩

end Core

theorem byte_of_toList {n : ResultLength} {result : ResultBytes n} {bs : List UInt8}
    (h : result.toList = bs) (i : Fin n.fewest) : result.byte i = bs.getD i.val 0 := by
  subst h
  have hi : i.val < result.toList.length := Nat.lt_of_lt_of_le i.isLt result.fewest_le
  simp [ResultBytes.byte, List.getElem?_eq_getElem hi]

open Diskette.Core (surroundings)

abbrev Goes (a : Attempt α) (Q : α → Controller → Core → Prop) (c : Controller) (k : Core) : Prop :=
  Attempt.Ensures surroundings a Q (fun _ _ _ => False) c k

theorem Abides.phase (c : Controller) (phase : Phase) : Abides c { c with phase } := ⟨rfl, rfl⟩

theorem Abides.expect (h : Abides c c') (expectation : Expectation) :
    Abides c { c' with expectation } := ⟨h.setting, h.specified⟩

theorem ensures_expectEnd (interrupting : Bool) :
    (Operation.expectEnd c interrupting).Ensures surroundings (fun _ k' => k' = k) k := by
  apply Core.ensures_incidental
  unfold Operation.expectEnd
  split
  · exact .bind (.perform (by trivial)) fun _ => .bind (.perform (by trivial)) fun _ => .done
  · exact .done

/-- A command goes out whole, once the channel is set up. -/
theorem goes_sendCommand (h : Core.Idle c.base k) (hf : k.faults.Harmless) {bytes : List UInt8}
    (hbytes : bytes ≠ []) (hlength : bytes.length = Order.length (bytes.headD 0))
    (interrupting : Bool) {load : Option Operation.ChannelLoad} {channel : ChannelState}
    (hload : (Operation.setUpChannel load).Ensures surroundings
      (fun _ k' => k' = { k with channel }) k) :
    Goes (Operation.sendCommand bytes interrupting load) (fun _ c' k' => Abides c c' ∧
      ∃ m : Simulated, m.core = { k with channel }.took bytes ∧
        k' = (m.obey (.ofBytes bytes)).core) c k := by
  have hsame : Core.Same k { k with channel } := ⟨rfl, rfl, rfl, rfl, rfl, rfl, rfl, rfl⟩
  have hidle : Core.Idle c.base { k with channel } :=
    ⟨h.toOpen.same hsame h.whole, h.command⟩
  simp only [Goes, Operation.sendCommand, Attempt.ensures_bind, Attempt.ensures_setPhase,
    Attempt.ensures_getThe, Attempt.ensures_lift, Attempt.ensures_modify, Attempt.ensures_ofExcept]
  refine Core.ensures_uninterrupted (Program.ensures_bind.mpr (hload.mono ?_))
  rintro - _ rfl
  refine Program.ensures_bind.mpr ((ensures_expectEnd interrupting).mono ?_)
  rintro expectation _ rfl
  refine Program.ensures_bind.mpr ((Core.ensures_send hidle hbytes hlength).mono ?_)
  intro r k' hsent
  cases hsent with
  | obeyed m hm => exact ⟨(Abides.phase c .sending).expect expectation, m, hm, rfl⟩
  | stalled cause limit hlimit hlt =>
    have hnone : k.faults.commandLimit = none := hf.commandLimit
    exact absurd (hnone.symm.trans hlimit) (by simp)

/-- A command goes out whole. -/
theorem goes_sendBytes (h : Core.Idle c.base k) (hf : k.faults.Harmless) {bytes : List UInt8}
    (hbytes : bytes ≠ []) (hlength : bytes.length = Order.length (bytes.headD 0))
    (interrupting : Bool) :
    Goes (Operation.sendCommand bytes interrupting none) (fun _ c' k' => Abides c c' ∧
      ∃ m : Simulated, m.core = k.took bytes ∧ k' = (m.obey (.ofBytes bytes)).core) c k := by
  have hload : (Operation.setUpChannel none).Ensures surroundings
      (fun _ k' => k' = { k with channel := k.channel }) k := rfl
  exact goes_sendCommand h hf hbytes hlength interrupting hload

theorem goes_awaitEnd (hat : Core.At c.base k) {settled : MainStatus → Bool}
    (hsettled : settled k.status = true) (ms : Nat) :
    Goes (Operation.awaitEnd ms settled) (fun _ c' k' => Abides c c' ∧ k' = k) c k := by
  have hpoll : (do return settled (← Fifo.readStatus c.base) : Routine Bool).Ensures surroundings
      (fun b k' => b = true ∧ k' = k) k := by
    refine Program.ensures_bind.mpr ((Core.ensures_readStatus hat).mono ?_)
    rintro _ _ ⟨rfl, rfl⟩
    exact ⟨hsettled, rfl⟩
  simp only [Goes, Operation.awaitEnd, Attempt.ensures_bind, Attempt.ensures_setPhase,
    Attempt.ensures_getThe, Attempt.ensures_lift, Attempt.ensures_modify]
  apply (Core.ensures_wait _ _ ms hpoll).mono
  rintro ⟨result, expectation⟩ _ ⟨rfl, hresult⟩
  cases result with
  | timedOut => exact absurd rfl hresult
  | _ => exact ⟨(Abides.phase c .awaitingCompletion).expect expectation, rfl⟩

theorem goes_awaitAnswer {bs : List UInt8} {n : ResultLength} (hopen : Core.Open c.base k)
    (hf : k.faults.Harmless) (hmost : bs.length ≤ n.most) :
    Goes (Operation.awaitAnswer n) (fun _ c' k' => c' = c ∧ k' = k.answer bs) c (k.answer bs) := by
  have hlimit : k.faults.commandLimit ≠ some 0 := by simp [hf.commandLimit]
  simp only [Goes, Operation.awaitAnswer, Attempt.ensures_bind, Attempt.ensures_getThe,
    Attempt.ensures_of]
  apply (Core.ensures_awaitAnswer hopen hlimit hmost).mono
  rintro (cause | _) k' ⟨rfl, hgive⟩
  · exact absurd hgive.2 (by simp [hf.withholdResults])
  · exact ⟨trivial, rfl⟩

theorem goes_takeResult {bs : List UInt8} {n : ResultLength} (hopen : Core.Open c.base k)
    (hf : k.faults.Harmless) (hfewest : n.fewest ≤ bs.length)
    (hmost : bs.length ≤ min n.most maxResult) :
    Goes (Operation.takeResult n) (fun result c' k' => result.toList = bs ∧ Abides c c' ∧
      k' = k.answer []) c (k.answer bs) := by
  have hlimit : k.faults.commandLimit ≠ some 0 := by simp [hf.commandLimit]
  simp only [Goes, Operation.takeResult, Attempt.ensures_bind, Attempt.ensures_setPhase,
    Attempt.ensures_getThe, Attempt.ensures_of, Attempt.ensures_pure]
  have hreceive := Core.ensures_receive hopen.toAt hopen.outOfReset
    (fun _ => hf.withholdResults) hfewest hmost
  apply (Core.ensures_uninterrupted hreceive).mono
  rintro _ _ ⟨⟨result, rfl, hresult⟩, rfl⟩
  apply (Core.ensures_finish hopen.idle hlimit).mono
  rintro _ _ ⟨rfl, rfl⟩
  exact ⟨hresult, Abides.phase c .receivingResult, rfl⟩

/-- A command that does not interrupt, with its result. -/
theorem ensures_transact_harmless {n : ResultLength} {bytes bs : List UInt8} {base : UInt16}
    (hidle : Core.Idle base k) (hf : k.faults.Harmless) (hbytes : bytes ≠ [])
    (hlength : bytes.length = Order.length (bytes.headD 0))
    (hobey : ∀ m : Simulated, m.core = k.took bytes →
      (m.obey (.ofBytes bytes)).core = k₁.answer bs)
    (hopen : Core.Open base k₁) (hfaults : k₁.faults = k.faults) (hfewest : n.fewest ≤ bs.length)
    (hmost : bs.length ≤ min n.most maxResult) :
    (Fifo.transact base bytes n).Ensures surroundings
      (fun r k' => ∃ result, r = .ok result ∧ result.toList = bs ∧ k' = k₁.answer []) k := by
  have hlimit : k.faults.commandLimit ≠ some 0 := by simp [hf.commandLimit]
  apply (Core.ensures_transact (n := n) hidle hlimit hbytes hlength hobey hopen hfaults hfewest hmost).mono
  intro r k' htransacted
  cases htransacted with
  | answered result hresult => exact ⟨result, rfl, hresult, rfl⟩
  | stalled cause limit hstall hlt => exact absurd hstall (by simp [hf.commandLimit])
  | withheld cause hgive hne => exact absurd hgive (by simp [hf.withholdResults])

end Diskette
