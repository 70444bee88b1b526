import Diskette.Proofs.Conduct.Steady

/-!
Conditions that last through a command. Between the look for a storm before it and the one after it, a command
resets the controller, switches a motor on, and for the rest sends bytes, waits and takes in what comes back.
-/
namespace Diskette

variable {α σ : Type} {E : Surroundings Platform σ} {K : Controller → σ → Prop} {c : Controller} {s : σ}

/-- A condition that outlasts what goes over the data port, and what path the controller is told. -/
structure Conversing (E : Surroundings Platform σ) (K : Controller → σ → Prop) : Prop extends Patient E K where
  data : ∀ {c s b}, K c s → E.permits s (.output (Port.data c.base) b) ∧
    ∀ r s', E.follows s (.output (Port.data c.base) b) r s' → K c s'
  specified : ∀ {c s} specified, K c s → K { c with specified } s

/-- A condition that outlasts a reset and the start of a motor as well. -/
structure Resettable (E : Surroundings Platform σ) (K : Controller → σ → Prop) : Prop extends Conversing E K where
  spinUp : ∀ drive, Operation.Keeps E K (Operation.shadowed fun s => s.writeOutput (s.output.setMotor drive true))
  reset : Operation.Keeps E K Operation.reset

/-- A condition that lasts through a command. -/
structure Enduring (E : Surroundings Platform σ) (K : Controller → σ → Prop) : Prop
    extends Calm E K, Resettable E K

/-- A condition that outlasts whatever the channel of the controller is told, and what a transfer puts into the bounce
buffer before. -/
structure Armable (E : Surroundings Platform σ) (K : Controller → σ → Prop) (t : Transfer) : Prop where
  told : ∀ {c s number} {call : Channel.Call}, c.channel = some number → K c s →
    E.permits s (.channel number call) ∧ ∀ r s', E.follows s (.channel number call) r s' → K c s'
  fills : ∀ {c s}, c.path = .channel → K c s → (Operation.fillBounce t).Ensures E (fun _ => K c) s

theorem Armable.and {t : Transfer} (h : Armable E K t) (P : Controller → Prop) : Armable E (fun c s => K c s ∧ P c) t where
  told hchannel hK := (h.told hchannel hK.1).imp_right fun hf r s' hr => ⟨hf r s' hr, hK.2⟩
  fills hpath hK := (h.fills hpath hK.1).mono fun _ _ hK' => ⟨hK', hK.2⟩

/-- What lasts whatever is put into the bounce buffer. -/
theorem Armable.of_stored (htold : ∀ {c s number} {call : Channel.Call}, c.channel = some number → K c s →
      E.permits s (.channel number call) ∧ ∀ r s', E.follows s (.channel number call) r s' → K c s')
    (hstored : ∀ {c s bytes}, K c s →
      E.permits s (.memory (.store bytes)) ∧ ∀ r s', E.follows s (.memory (.store bytes)) r s' → K c s')
    (t : Transfer) : Armable E K t where
  told := htold
  fills _ hK := by
    refine (Operation.only_fillBounce t).ensures ?_ hK
    rintro s _ ⟨bytes, rfl⟩ hK
    exact hstored hK

theorem Armable.setUp {t : Transfer} {channel : UInt8} {direction : Direction} {address : UInt32} {length : Nat}
    (h : Armable E K t) (hchannel : c.channel = some channel) (hK : K c s) :
    (Operation.setUpChannel (some ⟨channel, direction, address, length⟩)).Ensures E (fun _ => K c) s := by
  refine (Operation.only_setUpChannel _).ensures ?_ hK
  rintro s _ ⟨_, call, ⟨⟩, rfl⟩ h'
  exact h.told hchannel h'

namespace Conversing

theorem talks {p : Routine α} (h : Conversing E K) (hp : p.Only (Fifo.Talks c.base)) (hK : K c s) :
    p.Ensures E (fun _ => K c) s := by
  refine hp.ensures (fun s call hcall hK => ?_) hK
  cases call with
  | output port b =>
    obtain rfl : port = Port.data c.base := hcall
    exact h.data hK
  | input port =>
    obtain rfl | rfl : port = Port.mainStatus c.base ∨ port = Port.data c.base := hcall
    · exact h.plain Port.reads_mainStatus hK
    · exact h.plain Port.reads_data hK
  | _ => first | exact hcall.elim | exact h.plain (by trivial) hK

theorem transact (h : Conversing E K) (command : Command) (n : ResultLength) (hK : K c s) :
    (Fifo.transact c.base (command.bytes c.drive c.recording) n).Ensures E (fun _ => K c) s :=
  h.talks (Fifo.only_transact _ n) hK

theorem specify (h : Conversing E K) (path : DataPath) :
    Attempt.Keeps E K (fun _ => K) (Operation.specify path) := by
  intro c s hK
  simp only [Operation.specify, Attempt.ensures_bind, Attempt.ensures_get, Attempt.ensures_of]
  apply (h.transact _ _ hK).mono
  rintro (cause | result) s' hK'
  · exact hK'
  · exact h.specified _ hK'

theorem respecify (h : Conversing E K) : Operation.Keeps E K Operation.respecify :=
  .get_bind fun c s hK => by
    refine Operation.Keeps.bind (.run (h.specify c.path)) (fun r => ?_) c s hK
    cases r with
    | ok => exact .pure
    | error cause => exact h.log _

theorem drain (h : Conversing E K) (count : Nat) : Operation.Keeps E K (Operation.drain count) := by
  induction count with
  | zero => exact .pure
  | succ count ih =>
    intro c s hK
    simp only [Operation.drain, Operation.ensures_bind, Operation.ensures_get, Operation.ensures_lift]
    apply (h.transact _ _ hK).mono
    rintro (cause | result) s' hK'
    · exact hK'
    · dsimp only
      rw [Operation.ensures_ite]
      split
      · exact hK'
      · exact Operation.Keeps.bind (h.log _) (fun _ => ih) c s' hK'

/-- A reset is its pulse, the registers that are written again, and talk. -/
theorem reset (h : Conversing E K) (hpulse : Operation.Keeps E K Operation.pulseReset)
    (hresync : ∀ c s, K c s → c.shadow.resync.Ensures E (fun _ => K c) s) : Operation.Keeps E K Operation.reset := by
  refine .bind (h.log _) fun _ => ?_
  refine .bind hpulse fun _ => ?_
  refine .bind h.awaitRestart fun _ => ?_
  refine .bind h.mainStatus fun _ => .get_bind fun c s hK => ?_
  refine Operation.ensures_bind.mpr (Operation.ensures_lift.mpr ((hresync c s hK).mono fun _ s' hK' => ?_))
  refine Operation.Keeps.bind (h.drain 4) (fun _ => ?_) c s' hK'
  refine .bind h.acknowledgeLine fun _ => ?_
  have hidle : ∀ c s, K c s → K { c with expectation := .idle, specified := none } s := by
    intro c s hK
    exact h.stance (c := { c with specified := none }) rfl (h.specified none hK)
  exact .bind (.modify hidle) fun _ => .bind h.respecify fun _ => h.setPhase _

theorem agreeOnPath (h : Conversing E K) : Attempt.Keeps E K (fun _ => K) Operation.agreeOnPath :=
  .get_bind fun c s hK => by
    rw [Attempt.ensures_ite]
    split
    · exact hK
    · exact h.specify _ c s hK

/-- A command with a transfer also needs its channel to be set up. -/
theorem sendCommand (h : Conversing E K) (bytes : List UInt8) (interrupting : Bool)
    {load : Option Operation.ChannelLoad}
    (hload : ∀ c s, K c s → (Operation.setUpChannel load).Ensures E (fun _ => K c) s) :
    Attempt.Keeps E K (fun _ => K) (Operation.sendCommand bytes interrupting load) := by
  refine .bind (.operation (h.setPhase _)) fun _ => .get_bind fun c s hK => ?_
  have hexpect : (Operation.expectEnd c interrupting).Only (Plain c.base c.channel) := by
    refine (Operation.only_expectEnd c interrupting).mono ?_
    rintro _ ⟨call, rfl, hcall⟩
    exact hcall
  have hwindow : (Platform.uninterrupted do
      Operation.setUpChannel load
      let expectation ← Operation.expectEnd c interrupting
      return (expectation, ← Fifo.send c.base bytes)).Ensures E (fun _ => K c) s := by
    refine Program.ensures_bind.mpr ((h.routine (.perform (by trivial)) hK).mono fun _ s₁ h₁ => ?_)
    refine Program.ensures_bind.mpr (Program.ensures_bind.mpr ((hload c s₁ h₁).mono fun _ s₂ h₂ => ?_))
    refine Program.ensures_bind.mpr ((h.routine hexpect h₂).mono fun _ s₃ h₃ => ?_)
    have hsend : (Fifo.send c.base bytes).Only (Fifo.Talks c.base) :=
      (Fifo.only_send bytes).mono fun _ => Fifo.talks_of_sends
    refine Program.ensures_bind.mpr ((h.talks hsend h₃).mono fun _ s₄ h₄ => ?_)
    exact Program.ensures_bind.mpr ((h.routine (.perform (by trivial)) h₄).mono fun _ _ => id)
  rw [Attempt.ensures_bind, Attempt.ensures_lift]
  apply hwindow.mono
  rintro ⟨expectation, sent⟩ s' hK'
  rw [Attempt.ensures_bind, Attempt.ensures_modify, Attempt.ensures_ofExcept]
  cases sent with
  | ok _ => exact h.stance (by rfl) hK'
  | error _ => exact h.stance (by rfl) hK'

/-- A command without a transfer. -/
theorem sendBytes (h : Conversing E K) (bytes : List UInt8) (interrupting : Bool) :
    Attempt.Keeps E K (fun _ => K) (Operation.sendCommand bytes interrupting none) :=
  h.sendCommand bytes interrupting fun _ _ hK => hK

theorem stepSectors (h : Conversing E K) (span : SectorSpan) (buffer : PayloadBuffer) (taken : List UInt8)
    (hK : K c s) : Delivery.Ensures E (Operation.stepSectors c.base span buffer) (fun _ _ => K)
      (fun _ _ => K) taken c s := by
  have hsteps : Delivery.Ensures E (Operation.stepSectors c.base span buffer) _ _ taken c s :=
    Operation.ensures_stepSectors (Q := fun _ => K c) (h.talks (Operation.only_readSectors _ _) hK) fun _ =>
      h.talks (Operation.only_writeSectors _ _ _) hK
  refine hsteps.mono ?_ fun _ _ _ _ => False.elim
  rintro _ _ _ _ ⟨rfl, hK'⟩
  exact hK'

end Conversing

namespace Resettable

theorem makeReceptive (h : Resettable E K) : Operation.Keeps E K Operation.makeReceptive :=
  h.toPatient.makeReceptive h.reset

theorem readyDrive (h : Resettable E K) (command : Command) (drive : Drive) :
    Operation.Keeps E K (Operation.readyDrive command drive) :=
  h.toPatient.readyDrive command drive (h.spinUp drive)

theorem recover (h : Resettable E K) (command : Command) (cause : Failure) :
    Operation.Keeps E K (Operation.recover command cause) :=
  .bind (h.log _) fun _ => .bind h.maskChannel fun _ =>
    .bind (h.modify (by exact fun _ => rfl)) fun _ => .bind h.reset fun _ => h.setPhase _

end Resettable

theorem Steady.enduring (h : Steady E K) : Enduring E K := by
  have hconversing : Conversing E K :=
    { h.calm.toPatient with
      data := fun hK => h.ordinary (ordinary_of_talks rfl) hK
      specified := fun _ => h.wiring rfl }
  exact
    { h.calm, hconversing with
      spinUp := fun _ => h.writeOutput fun _ => rfl
      reset := hconversing.reset h.pulseReset fun _ _ => h.resync }

namespace Enduring

/-- What lasts lasts along with anything that is about the wiring only. -/
theorem and {P : Controller → Prop} (h : Enduring E K)
    (hP : ∀ {c c' : Controller}, c'.wiring = c.wiring → P c → P c') : Enduring E fun c s => K c s ∧ P c := by
  have hkeep : ∀ {op : Operation Unit}, Operation.Keeps E K op →
      (∀ wiring, Operation.Keeps recorded (fun c _ => c.wiring = wiring) op) →
      Operation.Keeps E (fun c s => K c s ∧ P c) op := by
    intro op hop hwiring c s hK
    refine ((hop c s hK.1).yields (hwiring c.wiring c [] rfl)).mono fun _ c' s' h' => ?_
    exact ⟨h'.2, hP h'.1 hK.2⟩
  have hcall : ∀ {c : Controller} {s : σ} {call : Platform.Call},
      (E.permits s call ∧ ∀ r s', E.follows s call r s' → K c s') → P c →
      E.permits s call ∧ ∀ r s', E.follows s call r s' → K c s' ∧ P c :=
    fun hc hPc => ⟨hc.1, fun r s' hr => ⟨hc.2 r s' hr, hPc⟩⟩
  exact
    { stance := fun hc hK => ⟨h.stance hc hK.1,
        hP (Controller.wiring_of_footing (Controller.footing_of_stance hc)) hK.2⟩
      plain := fun hplain hK => hcall (h.plain hplain hK.1) hK.2
      footing := fun hc hK => ⟨h.footing hc hK.1, hP (Controller.wiring_of_footing hc) hK.2⟩
      data := fun hK => hcall (h.data hK.1) hK.2
      specified := fun {c s} specified hK => ⟨h.specified _ hK.1, hP (c := c) rfl hK.2⟩
      spinUp := fun drive => hkeep (h.spinUp drive) fun wiring => (steady_wiring wiring).writeOutput fun _ => rfl
      reset := hkeep h.reset fun wiring => (steady_wiring wiring).enduring.reset }

theorem senseHead (h : Enduring E K) : Attempt.Keeps E K (fun _ => K) Operation.senseHead := by
  refine .get_bind fun c s hK => ?_
  rw [Attempt.ensures_bind, Attempt.ensures_of]
  apply (h.transact _ _ hK).mono
  rintro (cause | result) s' hK'
  · exact hK'
  · refine Attempt.Keeps.bind (h.modifyThe (by exact fun _ => rfl)) (fun _ => ?_) c s' hK'
    split
    · exact .bind (.throw fun _ _ hK => hK) fun _ => .pure
    · exact .pure

theorem absorb (h : Enduring E K) (command : Command) (result : ResultBytes command.resultLength) :
    Attempt.Keeps E K (fun _ => K) (Operation.absorb command result) := by
  cases command with
  | readId head =>
    exact .bind (.operation (h.absorbStatus result)) fun _ => Alert.checkStatus _ result
  | specify timing path => exact .modify fun c s hK => h.specified (some path) hK
  | senseInterrupt => exact .operation (h.modify (by exact fun _ => rfl))
  | senseDrive => exact .operation (h.modify (by exact fun _ => rfl))
  | version => exact .operation (h.modify (by exact fun _ => rfl))
  | _ => exact .pure

theorem runSeek (h : Enduring E K) (command : Command) (bytes : List UInt8) (drive : Drive) :
    Attempt.Keeps E K (fun _ => K) (Operation.runSeek command bytes drive) := by
  refine .get_bind fun c s hK => ?_
  refine Attempt.Keeps.bind (h.sendBytes _ _) (fun _ => ?_) c s hK
  refine .bind (h.awaitEnd _ _) fun _ => ?_
  refine .bind (h.takeResult _) fun _ => ?_
  exact .bind h.senseHead fun _ => .get_bind fun _ _ hK' => hK'

theorem runImmediate (h : Enduring E K) (command : Command) (bytes : List UInt8) :
    Attempt.Keeps E K (fun _ => K) (Operation.runImmediate command bytes) := by
  refine .bind (h.sendBytes _ _) fun _ => ?_
  refine .bind (h.awaitAnswer _) fun _ => ?_
  refine .bind (h.takeResult _) fun result => ?_
  exact .bind (h.absorb command result) fun _ => .get_bind fun _ _ hK => hK

theorem transferByChannel {t : Transfer} (h : Enduring E K) (harm : Armable E K t) {channel : UInt8}
    (hpath : ∀ c s, K c s → c.path = .channel) (hchannel : ∀ c s, K c s → c.channel = some channel)
    (bytes : List UInt8) (span : SectorSpan) :
    Delivery.Keeps E K (fun _ => K) (Operation.transferByChannel channel bytes span t) := by
  refine .bind (.lift fun c s hK => harm.fills (hpath c s hK) hK) fun _ => ?_
  refine .bind (.lift fun c s hK => h.routine (.perform (by trivial)) hK) fun address => ?_
  have hload : ∀ c s, K c s →
      (Operation.setUpChannel (some ⟨channel, t.direction, address, t.length⟩)).Ensures E (fun _ => K c) s :=
    fun c s hK => harm.setUp (hchannel c s hK) hK
  refine .bind (.attempt (h.sendCommand _ _ hload)) fun _ => ?_
  refine .bind (.attempt (h.awaitEnd _ _)) fun endedBy => ?_
  refine .bind (.attempt h.awaitResult) fun _ => ?_
  refine .bind (.attempt h.receiveStatus) fun result => ?_
  refine .bind (h.moved hchannel t.length) fun moved => ?_
  exact .bind (h.emptyBounce t moved) fun _ => .attempt (h.conclude span t result moved _)

theorem transferByPort (h : Enduring E K) (bytes : List UInt8) (span : SectorSpan) (t : Transfer) :
    Delivery.Keeps E K (fun _ => K) (Operation.transferByPort bytes span t) := by
  refine .bind (.attempt (h.sendBytes _ _)) fun _ => ?_
  refine .bind (.operation (h.setPhase _)) fun _ => .get_bind fun taken c s hK => ?_
  have hrest : ∀ moved, Delivery.Keeps E K (fun _ => K) (do
      if moved ≠ t.length then throw (.shortTransfer t.length moved)
      let result ← .attempt Operation.receiveStatus
      .attempt (Operation.conclude span t result moved .polling) : Delivery Report) := by
    intro moved
    have hreport : Delivery.Keeps E K (fun _ => K) (do
        let result ← .attempt Operation.receiveStatus
        .attempt (Operation.conclude span t result moved .polling)) :=
      .bind (.attempt h.receiveStatus) fun result => .attempt (h.conclude span t result _ _)
    split
    · exact .bind (.throw fun _ _ hK => hK) fun _ => hreport
    · exact hreport
  rw [Delivery.ensures_bind]
  exact (h.stepSectors span t.buffer taken hK).mono (fun moved => hrest moved) fun _ _ _ _ => id

theorem transfer {t : Transfer} (h : Enduring E K) (harm : Armable E K t) (bytes : List UInt8) (span : SectorSpan) :
    Delivery.Keeps E K (fun _ => K) (Operation.transfer bytes span t) := by
  refine .get_bind fun taken c s hK => ?_
  have hwired : Enduring E fun c' s' => K c' s' ∧ c'.wiring = c.wiring := h.and fun hc hsame => hc.trans hsame
  have hagree := hwired.agreeOnPath c s ⟨hK, rfl⟩
  rw [Delivery.ensures_bind, Delivery.ensures_attempt]
  refine hagree.mono (fun _ c' s' h' => ?_) fun _ _ _ h' => h'.1
  split
  · rename_i channel hpath hsome
    have hbyChannel := hwired.transferByChannel (harm.and fun c' => c'.wiring = c.wiring)
      (fun _ _ h' => (Controller.path_of_wiring h'.2).trans hpath)
      (fun _ _ h' => (Controller.channel_of_wiring h'.2).trans hsome) bytes span
    refine (hbyChannel taken c' s' h').mono ?_ ?_
    · exact fun _ _ _ _ h'' => h''.1
    · exact fun _ _ _ _ h'' => h''.1
  · exact h.transferByPort _ _ _ taken c' s' h'.1

/-- The line is left as it was by a command that gets ready for its transfer, if it has one. -/
theorem carryOut_of_transfer (h : Enduring E K) (command : Command) (bytes : List UInt8) (t : Option Transfer)
    (htransfer : ∀ span, ∀ t' ∈ t, Delivery.Keeps E K (fun _ => K) (Operation.transfer bytes span t')) :
    Delivery.Keeps E K (fun _ => K) (Operation.carryOut command bytes t) := by
  refine .get_bind fun taken c s hK => ?_
  refine Delivery.Keeps.bind (.operation (h.readyDrive command _)) (fun _ => ?_) taken c s hK
  refine .bind (.operation h.makeReceptive) fun _ => ?_
  split
  · exact htransfer _ _ rfl
  · split
    · exact .attempt (h.runSeek _ _ _)
    · exact .attempt (h.runImmediate _ _)

/-- What comes of a data command comes of its transfer, which finds the line as it was. -/
theorem ensures_carryOut_of_transfer {command : Command} {bytes : List UInt8} {span : SectorSpan} {direction : Direction}
    {t : Transfer} {taken : List UInt8} {Q : Report → List UInt8 → Controller → σ → Prop}
    {G : Failure → List UInt8 → Controller → σ → Prop} (h : Enduring E K)
    (hdata : command.transfer? = some (span, direction)) (hK : K c s)
    (htransfer : ∀ c' s', K c' s' → Delivery.Ensures E (Operation.transfer bytes span t) Q G taken c' s') :
    Delivery.Ensures E (Operation.carryOut command bytes (some t)) Q G taken c s := by
  unfold Operation.carryOut
  rw [Delivery.ensures_bind, Delivery.ensures_getThe, Delivery.ensures_bind, Delivery.ensures_operation]
  refine (h.readyDrive command _ c s hK).mono fun _ c₁ s₁ hK₁ => ?_
  rw [Delivery.ensures_bind, Delivery.ensures_operation]
  refine (h.makeReceptive c₁ s₁ hK₁).mono fun _ c₂ s₂ hK₂ => ?_
  simp only [hdata]
  exact htransfer c₂ s₂ hK₂

/-- Whatever comes of an accepted command, the line is left as it was. -/
theorem carryOut (h : Enduring E K) (command : Command) (bytes : List UInt8) (t : Option Transfer)
    (harm : ∀ t' ∈ t, Armable E K t') : Delivery.Keeps E K (fun _ => K) (Operation.carryOut command bytes t) :=
  h.carryOut_of_transfer command bytes t fun span t' ht' => h.transfer (harm t' ht') bytes span

end Enduring
end Diskette
