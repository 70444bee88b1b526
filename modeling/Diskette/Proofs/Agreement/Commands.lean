import Diskette.Proofs.Agreement.Operations
import Diskette.Proofs.Conduct.Requests

/-!
Commands, and everything else that is asked of the driver, as long as it agrees with the controller on the data
path. A data command that goes out after that has been told where its payload will go.
-/
namespace Diskette.Receiver

open Simulated (Order)

variable {base : UInt16} {α : Type} {c : Controller} {x : Receiver} {R S : Route → Option Bool → Prop}
  {bytes : List UInt8}

/-- An attempt that may break off between the driver and the controller. -/
abbrev AttemptAgrees (base : UInt16) (a : Attempt α) : Prop :=
  Attempt.Keeps (heeded base) (Agreeing base) (fun _ c _ => Halted base c) a

abbrev DeliveryAgrees (base : UInt16) (d : Delivery α) : Prop :=
  Delivery.Keeps (heeded base) (Agreeing base) (fun _ c _ => Halted base c) d

theorem agrees_of_keeps {a : Attempt α} (h : Attempt.Keeps (heeded base) (Agreeing base) (fun _ => Agreeing base) a) :
    AttemptAgrees base a := h.weaken fun _ _ _ hc => hc.halted hc.holds.sound

/-- What the driver and the controller agree on is the path that is taken. -/
theorem ensures_agreeOnPath (h : Agreeing base c x) : Attempt.Ensures (heeded base) Operation.agreeOnPath
    (fun _ => Poised base fun r nonDma => r.Agreed nonDma ∧ nonDma = some (c.path == .port))
    (fun _ c' _ => Halted base c') c x := by
  unfold Operation.agreeOnPath
  rw [Attempt.ensures_bind, Attempt.ensures_getThe, Attempt.ensures_ite]
  split
  · rename_i hspecified
    exact ⟨h.base_eq, h.outOfReset, h.due, h.holds, h.holds.told c.path hspecified⟩
  · refine (ensures_specify c.path h.holds.sound h).mono ?_ ?_
    · intro _ c' y h'
      refine h'.mono fun r nonDma hr => ?_
      obtain ⟨hroute, hagreed⟩ := hr
      exact ⟨hagreed, hagreed.told c.path (by rw [hroute]; rfl)⟩
    · intro _ c' y h'
      have hroute : c'.route = c.route := h'.holds
      exact h'.halted (hroute ▸ h.holds.sound)

theorem told_setUpChannel (load : Option Operation.ChannelLoad) (x : Receiver) :
    (Operation.setUpChannel load).Ensures (heeded base) (fun _ y => y.wire.due = x.wire.due ∧
      y.wire.command = x.wire.command ∧ y.wire.loaded = (x.wire.loaded || load.isSome) ∧ y.pulsed = x.pulsed ∧
      y.nonDma = x.nonDma) x := by
  cases load with
  | none => exact ⟨rfl, rfl, (Bool.or_false _).symm, rfl, rfl⟩
  | some l =>
    simp [Operation.setUpChannel, Channel.setUp, Platform.channel, Program.ensures_call, Listener.surroundings,
      listener, permits, hear, resets, Wire.hear]

/-- What a command that has been sent leaves due, and what it has told. -/
theorem ensures_sendCommand (interrupting : Bool) (load : Option Operation.ChannelLoad) (hframed : Wire.Framed bytes)
    (hbegins : Opcode.CarriesData (bytes.headD 0) → x.nonDma = some (!load.isSome)) (h : Poised base R c x) :
    Attempt.Ensures (heeded base) (Operation.sendCommand bytes interrupting load)
      (fun _ c' y => c'.route = c.route ∧ c'.shadow = c.shadow ∧
        y.wire.due = (if load.isSome then 0 else (Order.ofBytes bytes).payload) ∧
        y.nonDma = (Opcode.nonDma bytes).or x.nonDma)
      (fun _ c' _ => c'.route = c.route ∧ c'.shadow = c.shadow) c x := by
  have hbase := h.base_eq
  have hwindow : (Platform.uninterrupted do
      Operation.setUpChannel load
      let expectation ← Operation.expectEnd c interrupting
      return (expectation, ← Fifo.send c.base bytes)).Ensures (heeded base) (fun r y => r.2 = .ok () →
        y.wire.due = (if load.isSome then 0 else (Order.ofBytes bytes).payload) ∧
          y.nonDma = (Opcode.nonDma bytes).or x.nonDma) x := by
    refine ensures_uninterrupted fun y hdue hcommand hloaded hpulsed hnonDma => ?_
    refine Program.ensures_bind.mpr ((told_setUpChannel load y).mono ?_)
    rintro - y₁ ⟨hdue₁, hcommand₁, hloaded₁, hpulsed₁, hnonDma₁⟩
    refine Program.ensures_bind.mpr ((ensures_kept (Wire.quiet_expectEnd c interrupting) y₁).mono ?_)
    rintro expectation y₂ ⟨hstill, hpulsed₂, hnonDma₂⟩
    have hloaded₂ : y₂.wire.loaded = load.isSome := by rw [hstill.loaded, hloaded₁, hloaded, Bool.false_or]
    have hdue₂ : y₂.wire.due = 0 := by rw [hstill.due, hdue₁, hdue, h.due]
    have hnonDma' : y₂.nonDma = x.nonDma := by rw [hnonDma₂, hnonDma₁, hnonDma]
    have hsend : (Fifo.send base bytes).Ensures (heeded base) _ y₂ :=
      ensures_send hframed hdue₂ (hpulsed₂.trans (hpulsed₁.trans hpulsed))
        (hstill.command.trans (hcommand₁.trans hcommand)) (by rw [hnonDma', hloaded₂]; exact hbegins)
    rw [hbase]
    refine Program.ensures_bind.mpr (hsend.mono ?_)
    rintro r z hz z' hdue' hnonDma'' rfl
    rw [hloaded₂, hnonDma'] at hz
    exact ⟨hdue'.trans hz.1, hnonDma''.trans hz.2⟩
  simp only [Operation.sendCommand, Attempt.ensures_bind, Attempt.ensures_setPhase, Attempt.ensures_getThe,
    Attempt.ensures_lift]
  refine hwindow.mono ?_
  rintro ⟨expectation, sent⟩ y hy
  rw [Attempt.ensures_modify, Attempt.ensures_ofExcept]
  cases sent with
  | ok _ => exact ⟨rfl, rfl, hy rfl⟩
  | error _ => exact ⟨rfl, rfl⟩

/-- A command whose payload, if it has one, goes through the channel. -/
theorem poised_sendCommand (interrupting : Bool) (load : Option Operation.ChannelLoad) (hframed : Wire.Framed bytes)
    (hbegins : Opcode.CarriesData (bytes.headD 0) → x.nonDma = some (!load.isSome))
    (hpayload : load.isSome ∨ (Order.ofBytes bytes).payload = 0) (hsound : c.route.Sound)
    (hRS : R c.route x.nonDma → S c.route ((Opcode.nonDma bytes).or x.nonDma)) (h : Poised base R c x) :
    Attempt.Ensures (heeded base) (Operation.sendCommand bytes interrupting load) (fun _ => Poised base S)
      (fun _ c' _ => Halted base c') c x := by
  have hbase : ∀ c' : Controller, c'.shadow = c.shadow → c'.base = base := by
    intro c' hshadow
    have hsame : c'.shadow.base = c.shadow.base := by rw [hshadow]
    exact hsame.trans h.base_eq
  refine (ensures_sendCommand interrupting load hframed hbegins h).mono ?_ ?_
  · rintro _ c' y ⟨hroute, hshadow, hdue, hnonDma⟩
    refine ⟨hbase c' hshadow, by rw [hshadow]; exact h.outOfReset, ?_, by rw [hroute, hnonDma]; exact hRS h.holds⟩
    rw [hdue]
    rcases hpayload with hload | hnone
    · exact if_pos hload
    · rw [hnone, ite_self]
  · rintro _ c' y ⟨hroute, hshadow⟩
    exact ⟨hbase c' hshadow, hroute ▸ hsound⟩

theorem agrees_senseHead : AttemptAgrees base Operation.senseHead := by
  refine .get_bind fun c x h => ?_
  rw [Attempt.ensures_bind, Attempt.ensures_of]
  refine (poised_transact .senseInterrupt _ rfl rfl h).mono ?_
  rintro (cause | result) y ⟨hdue, htold⟩
  · exact h.halted h.holds.sound
  · have hy : Agreeing base c y := ⟨h.base_eq, h.outOfReset, hdue, by rw [htold result rfl]; exact h.holds⟩
    refine Attempt.Keeps.bind (.modify fun _ _ h => h.of_eq (by rfl) (by rfl)) (fun _ => ?_) c y hy
    split
    · exact .bind (.throw fun _ _ h => h.halted h.holds.sound) fun _ => .pure
    · exact .pure

theorem ensures_absorb (command : Command) (result : ResultBytes command.resultLength)
    (h : Poised base (Route.Hinted command.tells) c x) :
    Attempt.Ensures (heeded base) (Operation.absorb command result) (fun _ => Agreeing base)
      (fun _ c' _ => Halted base c') c x := by
  cases command with
  | specify timing path => exact ⟨h.base_eq, h.outOfReset, h.due, h.holds⟩
  | readId head =>
    have hagrees : AttemptAgrees base (Operation.absorb (.readId head) result) :=
      .bind (.operation (calm_poised.absorbStatus result)) fun _ => agrees_of_keeps (Alert.checkStatus _ result)
    exact hagrees c x h
  | senseInterrupt | senseDrive | version => exact ⟨h.base_eq, h.outOfReset, h.due, h.holds⟩
  | _ => exact h

theorem agrees_runSeek {command : Command} (hvalid : command.validate = .ok ()) (hdata : command.transfer? = none)
    (htells : command.tells = none) (drive moved : Drive) (flags : RecordingMode) :
    AttemptAgrees base (Operation.runSeek command (command.bytes drive flags) moved) := by
  have hpayload : (Order.ofBytes (command.bytes drive flags)).payload = 0 := by
    rw [Wire.payload_bytes hvalid, hdata]
  have hnone : Opcode.nonDma (command.bytes drive flags) = none := by rw [command.nonDma_bytes, htells]; rfl
  refine .get_bind fun c x h => ?_
  rw [Attempt.ensures_bind]
  refine (poised_sendCommand (S := Route.Agreed) _ none (Wire.framed_bytes _ _ _)
    (fun hcarries => absurd hcarries (Command.not_carriesData hdata _ _)) (.inr hpayload) h.holds.sound
    (fun hagreed => by rw [hnone]; exact hagreed) h).mono ?_ fun _ _ _ => id
  have hrest : AttemptAgrees base (do
      let endedBy ← Operation.awaitEnd Operation.seekTimeout (Operation.headAtRest moved)
      let _ ← Operation.takeResult command.resultLength
      let result ← Operation.senseHead
      return {
        result := result.toList
        status := (← getThe Controller).status
        transferred := 0
        endedBy } : Attempt Report) :=
    .bind (agrees_of_keeps (calm_poised.awaitEnd _ _)) fun _ =>
      .bind (agrees_of_keeps (calm_poised.takeResult _)) fun _ =>
        .bind agrees_senseHead fun _ => .get_bind fun _ _ h => h
  exact fun _ => hrest

theorem agrees_runImmediate {command : Command} (hvalid : command.validate = .ok ())
    (hdata : command.transfer? = none) (drive : Drive) (flags : RecordingMode) :
    AttemptAgrees base (Operation.runImmediate command (command.bytes drive flags)) := by
  have hpayload : (Order.ofBytes (command.bytes drive flags)).payload = 0 := by
    rw [Wire.payload_bytes hvalid, hdata]
  intro c x h
  unfold Operation.runImmediate
  rw [Attempt.ensures_bind]
  refine (poised_sendCommand (S := Route.Hinted command.tells) _ none (Wire.framed_bytes _ _ _)
    (fun hcarries => absurd hcarries (Command.not_carriesData hdata _ _)) (.inr hpayload) h.holds.sound
    (fun hagreed => by rw [command.nonDma_bytes]; exact hagreed.hinted command.tells) h).mono ?_ fun _ _ _ => id
  intro _ c₁ x₁ h₁
  have hhalted : ∀ c x, Poised base (Route.Hinted command.tells) c x → Halted base c :=
    fun _ _ hc => hc.halted hc.holds.sound
  rw [Attempt.ensures_bind]
  refine (calm_poised.awaitAnswer _ c₁ x₁ h₁).mono (fun _ c₂ x₂ h₂ => ?_) fun _ => hhalted
  rw [Attempt.ensures_bind]
  refine (calm_poised.takeResult _ c₂ x₂ h₂).mono (fun result c₃ x₃ h₃ => ?_) fun _ => hhalted
  rw [Attempt.ensures_bind]
  exact (ensures_absorb command result h₃).mono (fun _ _ _ h₄ => h₄) fun _ _ _ => id

theorem delivery_of_keeps {d : Delivery α}
    (h : Delivery.Keeps (heeded base) (Agreeing base) (fun _ => Agreeing base) d) : DeliveryAgrees base d :=
  h.weaken fun _ _ _ hc => hc.halted hc.holds.sound

theorem agrees_conclude (span : SectorSpan) (t : Transfer) (moved : Nat) (endedBy : EndSign) :
    AttemptAgrees base (do
      let result ← Operation.receiveStatus
      Operation.conclude span t result moved endedBy) :=
  .bind (agrees_of_keeps calm_poised.receiveStatus) fun result =>
    agrees_of_keeps (calm_poised.conclude span t result moved endedBy)

/-- The controller was told that the payload goes through the channel. -/
theorem agrees_transferByChannel (channel : UInt8) (span : SectorSpan) (t : Transfer) (taken : List UInt8)
    (hframed : Wire.Framed bytes) (hnone : Opcode.nonDma bytes = none)
    (h : Poised base (fun r nonDma => r.Agreed nonDma ∧ nonDma = some false) c x) :
    Delivery.Ensures (heeded base) (Operation.transferByChannel channel bytes span t)
      (fun _ _ => Agreeing base) (fun _ _ c' _ => Halted base c') taken c x := by
  unfold Operation.transferByChannel
  have hfill : (Operation.fillBounce t).Only (Aside base) := by
    refine (Operation.only_fillBounce t).mono ?_
    rintro _ ⟨_, rfl⟩
    trivial
  rw [Delivery.ensures_bind, Delivery.ensures_lift]
  refine (h.aside hfill).mono fun _ x₁ h₁ => ?_
  have haddress : (Platform.memory .bounceAddress).Only (Aside base) := .perform (by trivial)
  rw [Delivery.ensures_bind, Delivery.ensures_lift]
  refine (h₁.aside haddress).mono fun address x₂ h₂ => ?_
  rw [Delivery.ensures_bind, Delivery.ensures_attempt]
  refine (poised_sendCommand (S := Route.Agreed) true (some ⟨channel, t.direction, address, t.length⟩) hframed
    (fun _ => h₂.holds.2) (.inl rfl) h₂.holds.1.sound (fun hboth => by rw [hnone]; exact hboth.1) h₂).mono ?_
    fun _ _ _ => id
  have hrest : DeliveryAgrees base (do
      let endedBy ← .attempt (Operation.awaitEnd Operation.transferTimeout MainStatus.canRead)
      .attempt Operation.awaitResult
      let result ← .attempt Operation.receiveStatus
      let moved ← Channel.moved channel t.length
      Operation.emptyBounce t moved
      .attempt (Operation.conclude span t result moved endedBy) : Delivery Report) := by
    refine .bind (.attempt (agrees_of_keeps (calm_poised.awaitEnd _ _))) fun endedBy => ?_
    refine .bind (.attempt (agrees_of_keeps calm_poised.awaitResult)) fun _ => ?_
    refine .bind (.attempt (agrees_of_keeps calm_poised.receiveStatus)) fun result => ?_
    have hmoved : (Channel.moved channel t.length).Only (Aside base) :=
      (Wire.quiet_moved channel _).mono fun _ => aside_of_quiet
    refine .bind (delivery_of_keeps (.lift fun c x h => h.aside hmoved)) fun moved => ?_
    refine .bind (delivery_of_keeps (calm_poised.emptyBounce t moved)) fun _ => ?_
    exact .attempt (agrees_of_keeps (calm_poised.conclude span t result moved endedBy))
  exact fun _ => hrest taken

/-- The controller was told that the payload goes through the data port. -/
theorem agrees_transferByPort {span : SectorSpan} {t : Transfer} (taken : List UInt8) (hframed : Wire.Framed bytes)
    (hnone : Opcode.nonDma bytes = none) (hvalid : span.validate = .ok ()) (hlength : t.length = span.byteLength)
    (hpayload : (Order.ofBytes bytes).payload = span.byteLength)
    (h : Poised base (fun r nonDma => r.Agreed nonDma ∧ nonDma = some true) c x) :
    Delivery.Ensures (heeded base) (Operation.transferByPort bytes span t)
      (fun _ _ => Agreeing base) (fun _ _ c' _ => Halted base c') taken c x := by
  obtain ⟨hagreed, htold⟩ := h.holds
  simp only [Operation.transferByPort, Delivery.ensures_bind, Delivery.ensures_attempt, Delivery.ensures_operation,
    Delivery.ensures_getThe, Delivery.ensures_ite, Delivery.ensures_throw, Operation.ensures_setPhase]
  have hbase : ∀ c' : Controller, c'.shadow = c.shadow → c'.base = base := by
    intro c' hshadow
    have hsame : c'.shadow.base = c.shadow.base := by rw [hshadow]
    exact hsame.trans h.base_eq
  refine (ensures_sendCommand _ none hframed (fun _ => htold) h).mono ?_ ?_
  · rintro _ c₁ x₁ ⟨hroute, hshadow, hdue, hnonDma⟩
    have hdue₁ : x₁.wire.due = span.byteLength := hdue.trans hpayload
    have hsectors : span.count.toNat * span.sectorBytes ≤ x₁.wire.due :=
      Nat.le_of_eq (hdue₁.trans (SectorSpan.byteLength_eq hvalid)).symm
    have hstep : Delivery.Ensures (heeded base) (Operation.stepSectors base span t.buffer) _ _ taken
        { c₁ with phase := .awaitingCompletion } x₁ := Operation.ensures_stepSectors
      (ensures_readSectors _ _ hsectors) fun source => ensures_writeSectors _ _ source x₁ hsectors
    have hbase' : Controller.base { c₁ with phase := .awaitingCompletion } = base := hbase c₁ hshadow
    rw [hbase']
    refine hstep.mono ?_ fun _ _ _ _ => False.elim
    rintro moved taken₂ c₂ x₂ ⟨rfl, hsum, hnonDma₂⟩
    have hsound : c₁.route.Sound := hroute ▸ hagreed.sound
    split
    · exact ⟨hbase', hsound⟩
    · rename_i hmoved
      have hdue₂ : x₂.wire.due = 0 := by omega
      have hagreed₂ : c₁.route.Agreed x₂.nonDma := by
        rw [hroute, hnonDma₂, hnonDma, hnone]
        exact hagreed
      have hoff : c₁.shadow.output.resetAsserted = false := by
        rw [hshadow]
        exact h.outOfReset
      have hrun := agrees_conclude span t moved .polling _ x₂ ⟨hbase', hoff, hdue₂, hagreed₂⟩
      rwa [Attempt.ensures_bind] at hrun
  · rintro _ c' y ⟨hroute, hshadow⟩
    exact ⟨hbase c' hshadow, hroute ▸ hagreed.sound⟩

theorem agrees_transfer {span : SectorSpan} {t : Transfer} (hframed : Wire.Framed bytes)
    (hnone : Opcode.nonDma bytes = none) (hvalid : span.validate = .ok ()) (hlength : t.length = span.byteLength)
    (hpayload : (Order.ofBytes bytes).payload = span.byteLength) :
    DeliveryAgrees base (Operation.transfer bytes span t) := by
  intro taken c x h
  unfold Operation.transfer
  rw [Delivery.ensures_bind, Delivery.ensures_getThe, Delivery.ensures_bind, Delivery.ensures_attempt]
  refine (ensures_agreeOnPath h).mono (fun _ c₁ x₁ h₁ => ?_) fun _ _ _ => id
  cases hpath : c.path with
  | channel =>
    obtain ⟨channel, hchannel⟩ := Option.isSome_iff_exists.mp (h.holds.sound hpath)
    replace hchannel : c.channel = some channel := hchannel
    rw [hpath] at h₁
    simp only [hchannel]
    exact agrees_transferByChannel channel span t taken hframed hnone h₁
  | port =>
    rw [hpath] at h₁
    exact agrees_transferByPort taken hframed hnone hvalid hlength hpayload h₁

theorem agrees_carryOut {command : Command} {t : Option Transfer} {drive : Drive} {recording : RecordingMode}
    (h : Operation.Prepared drive recording command t bytes) :
    DeliveryAgrees base (Operation.carryOut command bytes t) := by
  obtain ⟨rfl, hvalid, hdata⟩ := h
  have hpayload := Wire.payload_bytes hvalid drive recording
  refine .get_bind fun taken c x hagreeing => ?_
  have hmotor : Operation.Keeps (heeded base) (Agreeing base)
      (Operation.shadowed fun s => s.writeOutput (s.output.setMotor c.drive true)) :=
    poised_writeOutput fun _ => id
  refine Delivery.Keeps.bind (.operation (calm_poised.readyDrive command c.drive hmotor)) (fun _ => ?_)
    taken c x hagreeing
  refine .bind (.operation (calm_poised.makeReceptive keeps_reset)) fun _ => ?_
  cases t with
  | some t =>
    obtain ⟨span, hfits⟩ := hdata
    rw [hfits.data] at hpayload
    simp only [hfits.data]
    have hnone : Opcode.nonDma (command.bytes drive recording) = none := by
      rw [command.nonDma_bytes, Command.tells_of_transfer hfits.data]
      rfl
    exact agrees_transfer (Wire.framed_bytes _ _ _) hnone (command.validate_span hfits.data hvalid) hfits.length_eq
      hpayload
  | none =>
    have hnone : command.transfer? = none := hdata
    simp only [hnone]
    split
    · rename_i hseek
      exact .attempt (agrees_runSeek hvalid hnone (Command.tells_of_seek hseek) _ _ _)
    · exact .attempt (agrees_runImmediate hvalid hnone _ _)

theorem agreeing_recover (command : Command) (cause : Failure) (h : Halted base c) :
    Operation.Ensures (heeded base) (Operation.recover command cause) (fun _ => Agreeing base) c x := by
  refine Operation.ensures_bind.mpr ((calm_halted.log _ c x h).mono fun _ c₁ x₁ h₁ => ?_)
  refine Operation.ensures_bind.mpr ((calm_halted.maskChannel c₁ x₁ h₁).mono fun _ c₂ x₂ h₂ => ?_)
  rw [Operation.ensures_bind, Operation.ensures_modify, Operation.ensures_bind]
  have h₃ : Halted base { c₂ with expectation := .idle } := ⟨h₂.base_eq, h₂.sound⟩
  exact (agreeing_reset h₃).mono fun _ => calm_poised.setPhase _

theorem obliging_agreeing : Obliging (heeded base) (Agreeing base) fun _ c _ => Halted base c where
  calm := calm_poised
  writeOutput _ hreset := poised_writeOutput hreset
  setRate := poised_setRate
  setRecording _ := poised_modify (by exact fun _ => rfl) (by exact fun _ => rfl)
  reported _ h := h.of_eq rfl rfl
  reset := keeps_reset
  enableDma := agreeing_enableDma
  disableDma := leavable_agreeing.disableDma
  carryOut := agrees_carryOut
  recover command cause h := agreeing_recover command cause h

theorem findable_heeded (placement : Placement) : Controller.Findable (heeded placement.base) placement
    (fun x => x.wire.due = 0) fun _ x => x.wire.due = 0 where
  finds := by
    intro x call hcall hdue
    have haside : Aside placement.base call := by
      cases call with
      | output port value =>
        obtain ⟨rfl, hreset⟩ := hcall
        exact ⟨Wire.digitalOutput_ne_data, by simp [resets, hreset]⟩
      | _ => trivial
    refine ⟨permits_of_aside haside, ?_⟩
    rintro r _ rfl
    exact due_aside haside hdue
  opens := by
    intro x hdue
    have hopen : ∀ irq, (Controller.openLine irq).Only (Aside placement.base) := by
      intro irq
      cases irq with
      | none => exact .done
      | some irq => exact .bind (.perform (by trivial)) fun _ => .done
    exact (ensures_aside (hopen _) hdue).mono fun _ _ => And.left

/-- A new controller has been told nothing that the driver counts on. -/
theorem agreeing_new {placement : Placement} (hc : c.New placement) (hdue : x.wire.due = 0) :
    Agreeing placement.base c x :=
  ⟨hc.base_eq, hc.outOfReset, hdue, by simp [Route.Sound, Controller.route, hc.path],
    by simp [Controller.route, hc.specified]⟩

theorem due_of_found {found : Option Controller} (hnone : found = none → x.wire.due = 0)
    (hfound : ∀ c ∈ found, Agreeing base c x) : x.wire.due = 0 := by
  cases found with
  | none => exact hnone rfl
  | some c => exact (hfound c rfl).due

/-- An act leaves no payload under way, and a controller that agrees with the driver if it leaves one. -/
theorem ensures_act {controller : Option Controller} (a : Act) (hdue : x.wire.due = 0)
    (h : ∀ c ∈ controller, Agreeing base c x) :
    (a.program base controller).Ensures (heeded base)
      (fun controller' y => y.wire.due = 0 ∧ ∀ c ∈ controller', Agreeing base c y) x := by
  have hnew : ∀ placement c y, c.New placement → y.wire.due = 0 → Agreeing placement.base c y :=
    fun _ _ _ => agreeing_new
  cases a with
  | probe irq channel =>
    refine ((findable_heeded ⟨base, irq, channel⟩).probe (hnew _) hdue).mono ?_
    exact fun _ _ h => ⟨due_of_found h.1 h.2, h.2⟩
  | discover irq channel =>
    refine ((findable_heeded ⟨base, irq, channel⟩).discover (hnew _) obliging_agreeing.bringUp hdue).mono ?_
    exact fun _ _ h => ⟨due_of_found h.1 h.2, h.2⟩
  | ask request =>
    cases controller with
    | none => exact ⟨hdue, by simp⟩
    | some c =>
      refine Program.ensures_bind.mpr (Program.Ensures.mono (obliging_agreeing.request request c x (h c rfl)) ?_)
      rintro ⟨_, c'⟩ y h'
      exact ⟨h'.due, by simpa using h'⟩
  | release =>
    cases controller with
    | none => exact ⟨hdue, by simp⟩
    | some c =>
      refine Program.ensures_bind.mpr (Program.Ensures.mono (leavable_agreeing.release calm_poised.maskChannel c x (h c rfl)) ?_)
      rintro ⟨_, c'⟩ y h'
      exact ⟨h'.due, by simp⟩

end Diskette.Receiver
