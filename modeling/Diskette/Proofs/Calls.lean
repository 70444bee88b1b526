import Diskette.Proofs.Surroundings

/-! Which calls the routines on the data port and on the line make, whatever they are answered. -/
namespace Diskette

/-- Looks at the status, and lets a millisecond go by at a time. -/
def Fifo.Glances (base : UInt16) : Platform.Call → Prop
  | .input port => port = Port.mainStatus base
  | .delay ms => ms = 1
  | _ => False

/-- Looks at the status, and lets time go by. -/
def Fifo.Looks (base : UInt16) : Platform.Call → Prop
  | .input port => port = Port.mainStatus base
  | .delay _ => True
  | _ => False

/-- Glances at the status, and takes bytes in windows without interrupts. -/
def Fifo.Listens (base : UInt16) : Platform.Call → Prop
  | .input port => port = Port.mainStatus base ∨ port = Port.data base
  | .delay ms => ms = 1
  | .suppress | .resume _ => True
  | _ => False

/-- Looks at the status, and moves bytes in windows without interrupts. -/
def Fifo.Talks (base : UInt16) : Platform.Call → Prop
  | .input port => port = Port.mainStatus base ∨ port = Port.data base
  | .output port _ => port = Port.data base
  | .delay _ => True
  | .suppress => True
  | .resume _ => True
  | _ => False

/-- Looks at the status, and writes bytes. -/
def Fifo.Sends (base : UInt16) : Platform.Call → Prop
  | .input port => port = Port.mainStatus base
  | .output port _ => port = Port.data base
  | .delay _ => True
  | _ => False

/-- Makes a channel ready for a transfer. -/
def Channel.Call.Arms : Channel.Call → Prop
  | .unmask | .setMode _ | .loadCount _ | .loadAddress _ => True
  | _ => False

/-- Puts nothing into the bounce buffer. -/
def Memory.Call.Spares : Memory.Call → Prop
  | .store _ => False
  | _ => True

theorem Channel.mask_ne_unmask : Channel.Call.mask ≠ .unmask := nofun

variable {base : UInt16} {α : Type} {φ : Platform.Call → Prop}

/-- A wait makes the calls of its poll, looks at counters and lets time go by. -/
theorem Expectation.only_wait {poll : Routine Bool} (hdelay : φ (.delay 1))
    (hmemory : ∀ call : Memory.Call, call.Spares → φ (.memory call)) (hpoll : poll.Only φ) (e : Expectation) (line : Option Line)
    (ms : Nat) : (e.wait line poll ms).Only φ := by
  have htrusted : (e.trusted line).Only φ := by
    unfold trusted
    split
    · exact .bind (.perform (hmemory _ trivial)) fun _ => .ite .done .done
    · exact .done
  have hasked : (do return if ← poll then some WaitEnd.polled else none : Routine _).Only φ :=
    .bind hpoll fun _ => .done
  have hwatch : ∀ last, (e.watch line poll last).Only φ := by
    intro last
    refine .bind htrusted fun r => ?_
    cases r with
    | none => exact hasked
    | some trusted =>
      refine .bind (.perform (hmemory _ trivial)) fun _ => .ite ?_ (.ite hasked .done)
      exact .bind (.perform (hmemory _ trivial)) fun _ => .done
  induction ms with
  | zero => exact .bind (hwatch true) fun r => by cases r <;> exact .done
  | succ ms ih =>
    refine .bind (hwatch false) fun r => ?_
    cases r with
    | some result => exact .done
    | none => exact .bind (.perform hdelay) fun _ => ih

theorem Platform.only_uninterrupted {p : Routine α} (hs : φ .suppress) (hr : ∀ b, φ (.resume b))
    (h : p.Only φ) : (uninterrupted p).Only φ :=
  .bind (.perform hs) fun b => .bind h fun _ => .bind (.perform (hr b)) fun _ => .done

namespace Fifo

theorem looks_of_glances {c : Platform.Call} (h : Glances base c) : Looks base c := by
  cases c <;> first | exact h | trivial

theorem only_readStatus_of_look (hlook : φ (.input (Port.mainStatus base))) : (readStatus base).Only φ :=
  .bind (.perform hlook) fun _ => .done

theorem only_awaitReadyWithin_of_look (hlook : φ (.input (Port.mainStatus base))) (looks : Nat) :
    (awaitReadyWithin base looks).Only φ := by
  induction looks with
  | zero => exact .done
  | succ looks ih => exact .bind (only_readStatus_of_look hlook) fun _ => .ite .done ih

theorem only_writable_of_look (hlook : φ (.input (Port.mainStatus base))) : (writable base).Only φ :=
  .bind (only_awaitReadyWithin_of_look hlook _) fun status => by
    cases status <;> exact .done

theorem only_readable_of_look (hlook : φ (.input (Port.mainStatus base))) : (readable base).Only φ :=
  .bind (only_awaitReadyWithin_of_look hlook _) fun status => by
    cases status <;> exact .done

/-- A result is taken by nothing but reads of the two ports. -/
theorem only_receive_of_reads (hlook : φ (.input (Port.mainStatus base))) (hdata : φ (.input (Port.data base)))
    (n : ResultLength) : (receive base n).Only φ := by
  have hcollect : ∀ most, (collect base most).Only φ := by
    intro most
    induction most with
    | zero => exact .done
    | succ most ih =>
      exact .bind (only_readable_of_look hlook) fun _ =>
        .ite (.bind (.perform hdata) fun _ => .bind ih fun _ => .done) .done
  exact .bind (hcollect _) fun _ => .done

theorem glances_readStatus : (readStatus base).Only (Glances base) := only_readStatus_of_look rfl

theorem glances_awaitReadyWithin (looks : Nat) : (awaitReadyWithin base looks).Only (Glances base) :=
  only_awaitReadyWithin_of_look (by rfl) looks

theorem glances_awaitStatus (ready : MainStatus → Bool) (ms : Nat) :
    (awaitStatus base ready ms).Only (Glances base) := by
  have hfor : ∀ delays, (awaitStatusFor base ready delays).Only (Glances base) := by
    intro delays
    induction delays with
    | zero => exact .bind glances_readStatus fun _ => .done
    | succ delays ih =>
      exact .bind glances_readStatus fun _ => .ite .done (.bind (.perform rfl) fun _ => ih)
  exact hfor (ms - 1)

theorem glances_writable : (writable base).Only (Glances base) := only_writable_of_look rfl

theorem glances_readable : (readable base).Only (Glances base) := only_readable_of_look rfl

theorem glances_finish : (finish base).Only (Glances base) :=
  .bind (glances_awaitReadyWithin _) fun _ => .bind (glances_awaitStatus _ _) fun _ => .ite .done .done

theorem glances_awaitResult : (awaitResult base).Only (Glances base) :=
  .bind (glances_awaitStatus _ _) fun _ => .ite .done .done

theorem glances_awaitAnswer (n : ResultLength) : (awaitAnswer base n).Only (Glances base) :=
  .ite glances_awaitResult .done

theorem glances_payloadReady (ready : MainStatus → Bool) (ms : Nat) :
    (payloadReady base ready ms).Only (Glances base) :=
  .bind (glances_awaitReadyWithin _) fun status => by
    cases status with
    | none => exact .done
    | some status => exact glances_awaitStatus _ _

theorem only_readStatus : (readStatus base).Only (Looks base) := glances_readStatus.mono fun _ => looks_of_glances

theorem only_awaitReadyWithin (looks : Nat) : (awaitReadyWithin base looks).Only (Looks base) :=
  (glances_awaitReadyWithin looks).mono fun _ => looks_of_glances

theorem only_awaitStatus (ready : MainStatus → Bool) (ms : Nat) :
    (awaitStatus base ready ms).Only (Looks base) := (glances_awaitStatus ready ms).mono fun _ => looks_of_glances

theorem talks_of_looks {c : Platform.Call} (h : Looks base c) : Talks base c := by
  cases c <;> first | exact Or.inl h | trivial

theorem sends_of_looks {c : Platform.Call} (h : Looks base c) : Sends base c := by
  cases c <;> first | exact h | trivial

theorem talks_of_sends {c : Platform.Call} (h : Sends base c) : Talks base c := by
  cases c <;> first | exact Or.inl h | exact h | trivial

theorem only_writable : (writable base).Only (Looks base) := glances_writable.mono fun _ => looks_of_glances

theorem only_readable : (readable base).Only (Looks base) := glances_readable.mono fun _ => looks_of_glances

theorem only_sendFrom (total : Nat) (bytes : List UInt8) (sent : Nat) :
    (sendFrom base total bytes sent).Only (Sends base) := by
  induction bytes generalizing sent with
  | nil => exact .done
  | cons b rest ih =>
    exact .bind (only_writable.mono fun _ => sends_of_looks) fun _ =>
      .ite (.bind (.perform rfl) fun _ => ih _) .done

theorem listens_of_glances {c : Platform.Call} (h : Glances base c) : Listens base c := by
  cases c <;> first | exact Or.inl h | exact h.elim | exact h

theorem talks_of_listens {c : Platform.Call} (h : Listens base c) : Talks base c := by
  cases c <;> first | exact h | trivial

theorem listens_receive (n : ResultLength) : (receive base n).Only (Listens base) :=
  only_receive_of_reads (.inl rfl) (.inr rfl) n

theorem only_finish : (finish base).Only (Looks base) := glances_finish.mono fun _ => looks_of_glances

theorem only_awaitResult : (awaitResult base).Only (Looks base) := glances_awaitResult.mono fun _ => looks_of_glances

theorem only_awaitAnswer (n : ResultLength) : (awaitAnswer base n).Only (Looks base) :=
  (glances_awaitAnswer n).mono fun _ => looks_of_glances

theorem only_send (bytes : List UInt8) : (send base bytes).Only (Sends base) :=
  only_sendFrom _ _ _

theorem only_receive (n : ResultLength) : (receive base n).Only (Talks base) :=
  (listens_receive n).mono fun _ => talks_of_listens

theorem only_transact (bytes : List UInt8) (n : ResultLength) :
    (transact base bytes n).Only (Talks base) := by
  have hwindow : ∀ {β : Type} {p : Routine β}, p.Only (Talks base) →
      (Platform.uninterrupted p).Only (Talks base) :=
    Platform.only_uninterrupted (by trivial) (by intro; trivial)
  refine .run_bind (hwindow ((only_send bytes).mono fun _ => talks_of_sends)) fun _ => ?_
  refine .run_bind ((only_awaitAnswer n).mono fun _ => talks_of_looks) fun _ => ?_
  refine .run_bind (hwindow (only_receive n)) fun _ => ?_
  exact .run_bind (only_finish.mono fun _ => talks_of_looks) fun _ => .done

theorem only_payloadReady (ready : MainStatus → Bool) (ms : Nat) :
    (payloadReady base ready ms).Only (Looks base) :=
  (glances_payloadReady ready ms).mono fun _ => looks_of_glances

theorem listens_readPayload (ms count : Nat) : (readPayload base ms count).Only (Listens base) := by
  have htake : ∀ taken, (takePayload base ms count taken).Only (Listens base) := by
    induction count with
    | zero => exact fun _ => .done
    | succ count ih =>
      exact fun taken => .bind ((glances_payloadReady _ _).mono fun _ => listens_of_glances) fun _ =>
        .ite (.bind (.perform (.inr rfl)) fun _ => ih _) .done
  exact .bind (htake []) fun _ => .done

theorem only_writePayload (ms : Nat) (bytes : List UInt8) :
    (writePayload base ms bytes).Only (Talks base) := by
  have hgive : ∀ given, (givePayload base ms bytes given).Only (Talks base) := by
    induction bytes with
    | nil => exact fun _ => .done
    | cons b rest ih =>
      exact fun given => .bind ((only_payloadReady _ _).mono fun _ => talks_of_looks) fun _ =>
        .ite (.bind (.perform rfl) fun _ => ih _) .done
  exact hgive 0

end Fifo

namespace Operation

theorem only_setUpChannel (load : Option ChannelLoad) :
    (setUpChannel load).Only fun called => ∃ l call, load = some l ∧ called = Platform.Call.channel l.channel call := by
  cases load with
  | none => exact .done
  | some l =>
    have hcall : ∀ call : Channel.Call, (Platform.channel l.channel call).Only fun called =>
        ∃ l' call, some l = some l' ∧ called = Platform.Call.channel l'.channel call :=
      fun call => .perform ⟨l, call, rfl, rfl⟩
    exact .bind (hcall _) fun _ => .bind (hcall _) fun _ => .bind (hcall _) fun _ => .bind (hcall _) fun _ =>
      .bind (hcall _) fun _ => .bind (hcall _) fun _ => .done

theorem only_expectEnd (c : Controller) (interrupting : Bool) :
    (expectEnd c interrupting).Only fun called => ∃ call, called = Platform.Call.memory call ∧ call.Spares := by
  unfold expectEnd
  split
  · exact .bind (.perform ⟨_, rfl, trivial⟩) fun _ => .bind (.perform ⟨_, rfl, trivial⟩) fun _ => .done
  · exact .done

theorem only_fillBounce (t : Transfer) :
    (fillBounce t).Only fun called => ∃ bytes, called = Platform.Call.memory (.store bytes) := by
  unfold fillBounce
  split
  · exact .perform ⟨_, rfl⟩
  · exact .done

theorem listens_readSectors (size count : Nat) : (readSectors base size count).Only (Fifo.Listens base) := by
  induction count with
  | zero => exact .done
  | succ count ih =>
    refine .bind ((Fifo.glances_awaitStatus _ _).mono fun _ => Fifo.listens_of_glances) fun _ => ?_
    refine .bind (Platform.only_uninterrupted (by trivial) (by intro; trivial)
      (Fifo.listens_readPayload _ _)) fun bytes => ?_
    exact .ite (.bind ih fun _ => .done) .done

theorem only_readSectors (size count : Nat) : (readSectors base size count).Only (Fifo.Talks base) :=
  (listens_readSectors size count).mono fun _ => Fifo.talks_of_listens

theorem only_writeSectors (size count : Nat) (bytes : List UInt8) :
    (writeSectors base size count bytes).Only (Fifo.Talks base) := by
  induction count generalizing bytes with
  | zero => exact .done
  | succ count ih =>
    refine .bind ((Fifo.only_awaitStatus _ _).mono fun _ => Fifo.talks_of_looks) fun _ => ?_
    refine .bind (Platform.only_uninterrupted (by trivial) (by intro; trivial)
      (Fifo.only_writePayload _ _)) fun sent => ?_
    exact .ite (.bind (ih _) fun _ => .done) .done

/-- What becomes of the sectors that are stepped through the data port is what becomes of them as they are read or
written; the driver stays as it is. -/
theorem ensures_stepSectors {σ : Type} {E : Surroundings Platform σ} {span : SectorSpan} {buffer : PayloadBuffer}
    {taken : List UInt8} {c : Controller} {s : σ} {Q : Nat → σ → Prop}
    (hread : (readSectors base span.sectorBytes span.count.toNat).Ensures E (fun bytes => Q bytes.length) s)
    (hwrite : ∀ source, (writeSectors base span.sectorBytes span.count.toNat source).Ensures E Q s) :
    Delivery.Ensures E (stepSectors base span buffer) (fun moved _ c' s' => c' = c ∧ Q moved s')
      (fun _ _ _ _ => False) taken c s := by
  cases buffer with
  | destination bytes =>
    simp only [stepSectors, Delivery.ensures_bind, Delivery.ensures_lift, Delivery.ensures_deliver,
      Delivery.ensures_pure]
    exact hread.mono fun _ _ h => ⟨trivial, h⟩
  | source source =>
    simp only [stepSectors, Delivery.ensures_lift]
    exact (hwrite source).mono fun _ _ h => ⟨trivial, h⟩

end Operation
end Diskette
