import Diskette.Proofs.Careful.Payload

/-!
Commands, with care. A byte of a result is taken only if the result has it; what a command comes with has been checked
against the bounce buffer, as large as that was found to be, before anything is sent.
-/
namespace Diskette

variable {α β : Type} {capacity : Nat} {command : Command} {span : SectorSpan} {t : Transfer}

open Careful

namespace CarefulOperation

def startMotor (drive : Drive) : CarefulOperation Unit := do
  unless ← motorOn (← get).shadow.output drive do
    (Operation.log (.spinningUp drive)).careful
    setMotor drive true
    (Platform.delay Operation.startTime).careful

def makeReceptive : CarefulOperation Unit := do
  let status ← Operation.mainStatus.careful
  if !status.canWrite || status.busy then
    (Operation.log (.notAccepting status)).careful
    reset

def agreeOnPath : CarefulAttempt Unit := do
  let c ← getThe Controller
  unless c.specified = some c.path do specify c.path

def awaitEnd (ms : Nat) (settled : MainStatus → Option Bool) : CarefulAttempt EndSign := do
  (Operation.setPhase .awaitingCompletion).careful
  let c ← getThe Controller
  let line := if c.path = .channel then c.line else none
  let (result, expectation) ← wait c.expectation line (do settled (← (Fifo.readStatus c.base).careful)) ms
  modifyThe Controller fun c => { c with expectation }
  match result with
  | .interrupt => return .interrupt
  | .polled => return .polling
  | .timedOut => throw .resultTimeout

def awaitResult : CarefulAttempt Unit := do
  .of (Careful.awaitResult (← getThe Controller).base)

def awaitAnswer (n : ResultLength) : CarefulAttempt Unit := do
  .of (Careful.awaitAnswer (← getThe Controller).base n)

def takeResult (n : ResultLength) : CarefulAttempt (ResultBytes n) := do
  (Operation.setPhase .receivingResult).careful
  let c ← getThe Controller
  let result ← .of (uninterrupted (receive c.base n))
  .of (finish c.base)
  return result

def absorbStatus (result : ResultBytes (.exactly maxResult)) : CarefulOperation Unit := do
  let st0 ← result.byte? 0
  let st1 ← result.byte? 1
  let st2 ← result.byte? 2
  let cylinder ← result.byte? 3
  modify fun c => { c with status := { c.status with st0, st1, st2 }, cylinder }

def checkStatus (kind : CommandKind) (result : ResultBytes (.exactly maxResult)) : CarefulAttempt Unit := do
  let st0 ← result.byte? 0
  let st1 ← result.byte? 1
  let st2 ← result.byte? 2
  if indicatesFailure kind st0 st1 st2 then throw (.abnormalTermination st0 st1 st2)

def senseHead : CarefulAttempt (ResultBytes (.exactly 2)) := do
  let c ← getThe Controller
  let bytes ← commandBytes .senseInterrupt c.drive c.recording
  let result ← .of (transact c.base bytes (.exactly 2))
  let st0 ← result.byte? 0
  let cylinder ← result.byte? 1
  modifyThe Controller fun c => { c with status := { c.status with st0 }, cylinder }
  if indicatesFailure .seek st0 0 0 then throw (.abnormalTermination st0 0 0)
  return result

/-- The drive is looked for only once the controller is ready. -/
def headAtRest (drive : Drive) (status : MainStatus) : Option Bool := do
  if status.dataReady then return !(← seeking status drive) else return false

/-- A full result has the bytes that are taken of it. -/
theorem byte?_full (result : ResultBytes (.exactly maxResult)) :
    result.byte? 0 = some (result.byte 0) ∧ result.byte? 1 = some (result.byte 1) ∧
      result.byte? 2 = some (result.byte 2) ∧ result.byte? 3 = some (result.byte 3) :=
  ⟨result.byte?_val 0, result.byte?_val 1, result.byte?_val 2, result.byte?_val 3⟩

theorem headAtRest_eq (drive : Drive) (status : MainStatus) :
    headAtRest drive status = some (Operation.headAtRest drive status) := by
  simp only [headAtRest, Operation.headAtRest, seeking_eq]
  cases status.dataReady <;> rfl

@[simp] theorem startMotor_careful (drive : Drive) : (Operation.startMotor drive).careful = startMotor drive := by
  simp [Operation.startMotor, startMotor, motorOn_eq]

@[simp] theorem makeReceptive_careful : Operation.careful Operation.makeReceptive = makeReceptive := by
  simp [Operation.makeReceptive, makeReceptive]

@[simp] theorem agreeOnPath_careful : Attempt.careful Operation.agreeOnPath = agreeOnPath := by
  simp [Operation.agreeOnPath, agreeOnPath]

theorem awaitEnd_careful {settled : MainStatus → Bool} {settled' : MainStatus → Option Bool} (ms : Nat)
    (h : ∀ status, settled' status = some (settled status)) :
    (Operation.awaitEnd ms settled).careful = awaitEnd ms settled' := by
  simp only [Operation.awaitEnd, awaitEnd, Attempt.careful_bind, Attempt.careful_operation, Attempt.careful_getThe,
    Attempt.careful_lift, wait_careful, Attempt.careful_modifyThe, h]
  refine bind_congr fun _ => bind_congr fun c => ?_
  simp only [Program.careful_bind, Program.careful_pure]
  refine bind_congr fun r => bind_congr fun _ => ?_
  cases r.1 <;> rfl

@[simp] theorem awaitResult_careful : Attempt.careful Operation.awaitResult = awaitResult := by
  simp [Operation.awaitResult, awaitResult]

@[simp] theorem awaitAnswer_careful (n : ResultLength) : (Operation.awaitAnswer n).careful = awaitAnswer n := by
  simp [Operation.awaitAnswer, awaitAnswer]

@[simp] theorem takeResult_careful (n : ResultLength) : (Operation.takeResult n).careful = takeResult n := by
  simp [Operation.takeResult, takeResult]

@[simp] theorem absorbStatus_careful (result : ResultBytes (.exactly maxResult)) :
    (Operation.absorbStatus result).careful = absorbStatus result := by
  simp [Operation.absorbStatus, absorbStatus, byte?_full result]

@[simp] theorem checkStatus_careful (kind : CommandKind) (result : ResultBytes (.exactly maxResult)) :
    (Operation.checkStatus kind result).careful = checkStatus kind result := by
  simp [Operation.checkStatus, checkStatus, byte?_full result]

@[simp] theorem senseHead_careful : Attempt.careful Operation.senseHead = senseHead := by
  have hvalid : Command.senseInterrupt.validate = .ok () := rfl
  have hst0 (result : ResultBytes (.exactly 2)) : result.byte? 0 = some (result.byte 0) := result.byte?_val 0
  have hcylinder (result : ResultBytes (.exactly 2)) : result.byte? 1 = some (result.byte 1) := result.byte?_val 1
  simp only [Operation.senseHead, senseHead, bind_pure_comp, ExceptT.map_throw, Attempt.careful_bind,
    Attempt.careful_getThe, Attempt.careful_of, transact_careful, Attempt.careful_modifyThe, Attempt.careful_ite,
    Attempt.careful_throw, Attempt.careful_pure, commandBytes_eq hvalid, attempt_liftM_some, hst0, hcylinder, pure_bind]

def absorbSense (result : ResultBytes (.between 1 2)) : CarefulOperation Unit := do
  let st0 ← result.byte? 0
  modify fun c => { c with
    status := { c.status with st0 }
    cylinder := (result.byte? 1).getD c.cylinder }

def absorbDriveStatus (result : ResultBytes (.exactly 1)) : CarefulOperation Unit := do
  let st3 ← result.byte? 0
  modify fun c => { c with status := { c.status with st3 } }

def absorbVersion (result : ResultBytes (.exactly 1)) : CarefulOperation Unit := do
  let version ← result.byte? 0
  modify fun c => { c with version := some version }

def absorb : (command : Command) → ResultBytes command.resultLength → CarefulAttempt Unit
  | .senseInterrupt, result => absorbSense result
  | .senseDrive, result => absorbDriveStatus result
  | .readId _, result => do
    absorbStatus result
    checkStatus .immediate result
  | .version, result => absorbVersion result
  | .specify _ path, _ => modifyThe Controller fun c => { c with specified := some path }
  | _, _ => return ()

def runSeek (command : Command) (bytes : List UInt8) (drive : Drive) : CarefulAttempt Report := do
  (Operation.sendCommand bytes ((← getThe Controller).path == .channel) none).careful
  let endedBy ← awaitEnd Operation.seekTimeout (headAtRest drive)
  let _ ← takeResult command.resultLength
  let result ← senseHead
  return {
    result := result.toList
    status := (← getThe Controller).status
    transferred := 0
    endedBy }

def runImmediate (command : Command) (bytes : List UInt8) : CarefulAttempt Report := do
  (Operation.sendCommand bytes false none).careful
  awaitAnswer command.resultLength
  let result ← takeResult command.resultLength
  absorb command result
  return {
    result := result.toList
    status := (← getThe Controller).status
    transferred := 0
    endedBy := .polling }

@[simp] theorem absorbSense_careful (result : ResultBytes (.between 1 2)) :
    (Operation.absorbSense result).careful = absorbSense result := by
  have hst0 : result.byte? 0 = some (result.byte 0) := result.byte?_val 0
  simp [Operation.absorbSense, absorbSense, hst0]

theorem byte?_single (result : ResultBytes (.exactly 1)) : result.byte? 0 = some (result.byte 0) := result.byte?_val 0

@[simp] theorem absorbDriveStatus_careful (result : ResultBytes (.exactly 1)) :
    (Operation.absorbDriveStatus result).careful = absorbDriveStatus result := by
  simp [Operation.absorbDriveStatus, absorbDriveStatus, byte?_single result]

@[simp] theorem absorbVersion_careful (result : ResultBytes (.exactly 1)) :
    (Operation.absorbVersion result).careful = absorbVersion result := by
  simp [Operation.absorbVersion, absorbVersion, byte?_single result]

@[simp] theorem absorb_careful (result : ResultBytes command.resultLength) :
    (Operation.absorb command result).careful = absorb command result := by
  cases command with
  | senseInterrupt => exact (Attempt.careful_operation _).trans (congrArg liftM (absorbSense_careful result))
  | senseDrive => exact (Attempt.careful_operation _).trans (congrArg liftM (absorbDriveStatus_careful result))
  | version => exact (Attempt.careful_operation _).trans (congrArg liftM (absorbVersion_careful result))
  | readId head =>
    have hread (result : ResultBytes (.exactly maxResult)) : Attempt.careful (do
        Operation.absorbStatus result
        Operation.checkStatus .immediate result) = (do
        absorbStatus result
        checkStatus .immediate result) := by simp
    exact hread result
  | _ => rfl

@[simp] theorem runSeek_careful (bytes : List UInt8) (drive : Drive) :
    (Operation.runSeek command bytes drive).careful = runSeek command bytes drive := by
  have hend := awaitEnd_careful Operation.seekTimeout (headAtRest_eq drive)
  simp [Operation.runSeek, runSeek, hend]

@[simp] theorem runImmediate_careful (bytes : List UInt8) :
    (Operation.runImmediate command bytes).careful = runImmediate command bytes := by
  simp [Operation.runImmediate, runImmediate]

def receiveStatus : CarefulAttempt (ResultBytes (.exactly maxResult)) := do
  let result ← takeResult (.exactly maxResult)
  absorbStatus result
  return result

def conclude (span : SectorSpan) (t : Transfer) (result : ResultBytes (.exactly maxResult))
    (transferred : Nat) (endedBy : EndSign) : CarefulAttempt Report := do
  checkStatus .transfer result
  if transferred < t.length then throw (.shortTransfer t.length transferred)
  (Operation.log (.moved transferred t.direction span)).careful
  return {
    result := result.toList
    status := (← getThe Controller).status
    transferred
    endedBy }

/-- The bytes fit where they are put, and come from where they fit. -/
def emptyBounce (capacity : Nat) (t : Transfer) (moved : Nat) : CarefulDelivery Unit := do
  match t.buffer with
  | .source _ => return ()
  | .destination destination =>
    room? destination.length 0 moved
    room? capacity 0 moved
    .deliver (← (Platform.memory (.fetch moved)).careful).toList

def transferByChannel (capacity : Nat) (channel : UInt8) (bytes : List UInt8) (span : SectorSpan) (t : Transfer) :
    CarefulDelivery Report := do
  fillBounce capacity t
  let address ← (Platform.memory .bounceAddress).careful
  .attempt (Operation.sendCommand bytes true (some ⟨channel, t.direction, address, t.length⟩)).careful
  let endedBy ← .attempt (awaitEnd Operation.transferTimeout fun status => some status.canRead)
  .attempt awaitResult
  let result ← .attempt receiveStatus
  let moved ← moved channel t.length
  emptyBounce capacity t moved
  .attempt (conclude span t result moved endedBy)

def stepSectors (base : UInt16) (span : SectorSpan) (t : Transfer) : CarefulDelivery Nat := do
  match t.buffer with
  | .destination destination =>
    let taken ← readSectors base span.sectorBytes t.length destination.length span.count.toNat 0
    .deliver taken
    return taken.length
  | .source source => writeSectors base span.sectorBytes t.length source span.count.toNat 0

def transferByPort (bytes : List UInt8) (span : SectorSpan) (t : Transfer) : CarefulDelivery Report := do
  .attempt (Operation.sendCommand bytes false none).careful
  (Operation.setPhase .awaitingCompletion).careful
  let moved ← stepSectors (← getThe Controller).base span t
  if moved ≠ t.length then throw (.shortTransfer t.length moved)
  let result ← .attempt receiveStatus
  .attempt (conclude span t result moved .polling)

def transfer (capacity : Nat) (bytes : List UInt8) (span : SectorSpan) (t : Transfer) : CarefulDelivery Report := do
  let c ← getThe Controller
  .attempt agreeOnPath
  match c.path, c.channel with
  | .channel, some channel => transferByChannel capacity channel bytes span t
  | _, _ => transferByPort bytes span t

@[simp] theorem receiveStatus_careful : Attempt.careful Operation.receiveStatus = receiveStatus := by
  simp [Operation.receiveStatus, receiveStatus]

@[simp] theorem conclude_careful (result : ResultBytes (.exactly maxResult)) (transferred : Nat) (endedBy : EndSign) :
    (Operation.conclude span t result transferred endedBy).careful = conclude span t result transferred endedBy := by
  simp [Operation.conclude, conclude]

theorem emptyBounce_careful {moved : Nat} (hlength : moved ≤ t.buffer.bytes.length) (hroom : moved ≤ capacity) :
    (Operation.emptyBounce t moved).careful = emptyBounce capacity t moved := by
  obtain ⟨length, buffer⟩ := t
  cases buffer with
  | source bytes => rfl
  | destination bytes =>
    have hbytes : room? bytes.length 0 moved = some () := room?_eq (by simpa [PayloadBuffer.bytes] using hlength)
    have hbounce : room? capacity 0 moved = some () := room?_eq (by simpa using hroom)
    simp [Operation.emptyBounce, emptyBounce, hbytes, hbounce]

theorem careful_bind_congr {p : Routine α} {φ : α → Prop} (h : Yields p φ) {f g : α → CarefulDelivery β}
    (hfg : ∀ a, φ a → f a = g a) : (liftM p.careful >>= f) = (liftM p.careful >>= g) := by
  apply ExceptT.ext
  funext taken c
  have hlift : ExceptT.run (liftM p.careful : CarefulDelivery α) = Except.ok <$> liftM p.careful := rfl
  have hrun (f : α → CarefulDelivery β) : StateT.run (StateT.run (liftM p.careful >>= f).run taken) c =
      p.careful >>= fun a => StateT.run (StateT.run (f a).run taken) c := by
    simp [ExceptT.run_bind, hlift]
  refine (hrun f).trans (Eq.trans ?_ (hrun g).symm)
  exact Program.careful_bind_congr h fun a ha => by rw [hfg a ha]

theorem yields_moved (channel : UInt8) (requested : Nat) : Yields (Channel.moved channel requested) (· ≤ requested) := by
  refine fun h => (Channel.ensures_moved channel requested).mono ?_
  rintro moved _ ⟨left, ranOut, -, rfl⟩
  exact Channel.count_le requested left ranOut

theorem transferByChannel_careful (channel : UInt8) (bytes : List UInt8) (hlength : t.length ≤ t.buffer.bytes.length)
    (hroom : t.length ≤ capacity) :
    (Operation.transferByChannel channel bytes span t).careful = transferByChannel capacity channel bytes span t := by
  have hend : (Operation.awaitEnd Operation.transferTimeout MainStatus.canRead).careful =
      awaitEnd Operation.transferTimeout fun status => some status.canRead := awaitEnd_careful _ fun _ => rfl
  simp only [Operation.transferByChannel, transferByChannel, Delivery.careful_bind, Delivery.careful_lift,
    Delivery.careful_attempt, fillBounce_careful hlength hroom, hend, awaitResult_careful, receiveStatus_careful,
    conclude_careful, ← moved_careful]
  refine bind_congr fun _ => bind_congr fun address => bind_congr fun _ => bind_congr fun endedBy =>
    bind_congr fun _ => bind_congr fun result => careful_bind_congr (yields_moved channel t.length) fun moved hmoved => ?_
  rw [emptyBounce_careful (Nat.le_trans hmoved hlength) (Nat.le_trans hmoved hroom)]

theorem stepSectors_careful (base : UInt16) (h : t.Fits command span) :
    (Operation.stepSectors base span t.buffer).careful = stepSectors base span t := by
  have hspan := Command.validate_span h.data h.valid
  have hlength : 0 + span.count.toNat * span.sectorBytes = t.length := by
    rw [h.length_eq, SectorSpan.byteLength_eq hspan, Nat.zero_add]
  have hpos : 0 < span.sectorBytes := by
    have hpos := SectorSpan.byteLength_pos hspan
    rw [← h.length_eq, ← hlength, Nat.zero_add] at hpos
    exact Nat.pos_of_mul_pos_left hpos
  have hlarge : t.length + span.sectorBytes < UInt64.size := by
    have hsector := SectorSpan.sectorBytes_le hspan
    have hall := SectorSpan.byteLength_lt hspan
    have hwide : UInt32.size + 16384 ≤ UInt64.size := by decide
    rw [h.length_eq]
    omega
  have hroom := h.length_le
  unfold Operation.stepSectors stepSectors
  cases hbuffer : t.buffer with
  | destination bytes =>
    have hroom : t.length ≤ bytes.length := by rwa [hbuffer] at hroom
    simp [readSectors_eq hpos hroom hlarge hlength]
  | source bytes =>
    have hroom : t.length ≤ bytes.length := by rwa [hbuffer] at hroom
    simp [writeSectors_eq hpos hroom hlarge hlength]

theorem transferByPort_careful (bytes : List UInt8) (h : t.Fits command span) :
    (Operation.transferByPort bytes span t).careful = transferByPort bytes span t := by
  simp only [Operation.transferByPort, transferByPort, Delivery.careful_bind, Delivery.careful_attempt,
    Delivery.careful_operation, Delivery.careful_getThe, stepSectors_careful _ h, Delivery.careful_ite,
    receiveStatus_careful, conclude_careful, Delivery.careful_throw]

theorem transfer_careful (bytes : List UInt8) (h : t.Fits command span) (hroom : t.length ≤ capacity) :
    (Operation.transfer bytes span t).careful = transfer capacity bytes span t := by
  simp only [Operation.transfer, transfer, Delivery.careful_bind, Delivery.careful_getThe, Delivery.careful_attempt,
    agreeOnPath_careful]
  refine bind_congr fun c => bind_congr fun _ => ?_
  cases c.path with
  | port => exact transferByPort_careful bytes h
  | channel =>
    cases c.channel with
    | none => exact transferByPort_careful bytes h
    | some channel => exact transferByChannel_careful channel bytes h.length_le hroom

def readyDrive (command : Command) (drive : Drive) : CarefulOperation Unit :=
  if command.needsMotor then startMotor drive else return ()

def carryOut (capacity : Nat) (command : Command) (bytes : List UInt8) (t : Option Transfer) :
    CarefulDelivery Report := do
  let drive := (← getThe Controller).drive
  readyDrive command drive
  makeReceptive
  match command.transfer?, t with
  | some (span, _), some t => transfer capacity bytes span t
  | _, _ =>
    match command.kind with
    | .seek => .attempt (runSeek command bytes drive)
    | _ => .attempt (runImmediate command bytes)

def recover (command : Command) (cause : Failure) : CarefulOperation Unit := do
  (Operation.log (.failed command cause)).careful
  Operation.maskChannel.careful
  modify fun c => { c with expectation := .idle }
  reset
  (Operation.setPhase .faulted).careful

def validateTransfer (t : Transfer) (command : Command) (capacity : Nat) : Option (Except Rejection Unit) := do
  match ← validate command with
  | .error cause => return .error cause
  | .ok () =>
    match command.transfer? with
    | none => return .error .carriesNoData
    | some (span, direction) =>
      if direction ≠ t.direction then return .error .wrongDirection
      else if t.length ≠ span.byteLength then return .error .wrongLength
      else if t.length > t.buffer.bytes.length then return .error .bufferTooShort
      else if t.length > capacity then return .error .exceedsBounceBuffer
      else return .ok ()

/-- Checks a command and its buffer, and keeps the size of the bounce buffer. -/
def accept (command : Command) (t : Option Transfer) : Careful (Except Rejection Nat) := do
  match command.transfer?, t with
  | some _, none => return .error .missingBuffer
  | none, some _ => return .error .unexpectedBuffer
  | some _, some t =>
    let capacity ← (Platform.memory .bounceSize).careful
    return (← validateTransfer t command capacity).map fun () => capacity
  | none, none => return .ok 0

def undertake (capacity : Nat) (command : Command) (bytes : List UInt8) (t : Option Transfer) :
    CarefulOperation Operation.Pass := do
  let early ← noticeStorm
  (Operation.setPhase .ready).careful
  (Operation.log (.submitted command (← get).drive)).careful
  let (outcome, delivered) ← (carryOut capacity command bytes t).run []
  return { early, outcome, delivered }

def takeNotice (early : Option Failure) : CarefulOperation (Option Failure) :=
  match early with
  | some notice => return some notice
  | none => noticeStorm

def complete (early : Option Failure) (report : Report) : CarefulOperation Report := do
  (Operation.setPhase .done).careful
  let notice ← takeNotice early
  modify fun c => { c with stormReported := c.stormReported || notice.isSome }
  return { report with notice }

def conduct (capacity : Nat) (command : Command) (bytes : List UInt8) (t : Option Transfer) :
    CarefulOperation (Except Failure Report × List UInt8) := do
  let pass ← undertake capacity command bytes t
  match pass.outcome with
  | .ok report => return (.ok (← complete pass.early report), pass.delivered)
  | .error cause =>
    recover command cause
    return (.error cause, pass.delivered)

def perform (command : Command) (t : Option Transfer) : CarefulOperation (Except Failure Report × List UInt8) := do
  match ← accept command t with
  | .error cause => return (.error (.invalidParameters cause), [])
  | .ok capacity =>
    let c ← get
    match ← encode command c.drive c.recording with
    | .error cause => return (.error (.invalidParameters cause), [])
    | .ok bytes => conduct capacity command bytes t

def execute (command : Command) : CarefulOperation (Except Failure Report) := do
  return (← perform command none).1

def executeWith (command : Command) (t : Transfer) : CarefulOperation (Except Failure Report × PayloadBuffer) := do
  let (outcome, delivered) ← perform command (some t)
  return (outcome, t.buffer.receive delivered)

/-- What comes with a command suits it, and the bounce buffer. -/
def Suits (capacity : Nat) (command : Command) (t : Option Transfer) : Prop :=
  ∀ transfer ∈ t, (∃ span, transfer.Fits command span) ∧ transfer.length ≤ capacity

@[simp] theorem readyDrive_careful (drive : Drive) :
    (Operation.readyDrive command drive).careful = readyDrive command drive := by
  simp [Operation.readyDrive, readyDrive]

theorem carryOut_careful (bytes : List UInt8) {t : Option Transfer} (h : Suits capacity command t) :
    (Operation.carryOut command bytes t).careful = carryOut capacity command bytes t := by
  simp only [Operation.carryOut, carryOut, Delivery.careful_bind, Delivery.careful_getThe, Delivery.careful_operation,
    readyDrive_careful, makeReceptive_careful]
  refine bind_congr fun c => bind_congr fun _ => bind_congr fun _ => ?_
  have hplain (drive : Drive) : Delivery.careful (match command.kind with
      | .seek => .attempt (Operation.runSeek command bytes drive)
      | _ => .attempt (Operation.runImmediate command bytes)) = (match command.kind with
      | .seek => .attempt (runSeek command bytes drive)
      | _ => .attempt (runImmediate command bytes)) := by
    cases command.kind <;> simp
  cases hdata : command.transfer? with
  | none => exact hplain c.drive
  | some run =>
    cases t with
    | none => exact hplain c.drive
    | some t =>
      obtain ⟨⟨span, hfits⟩, hroom⟩ := h t rfl
      obtain rfl : (span, t.direction) = run := by simpa [hfits.data] using hdata
      exact transfer_careful bytes hfits hroom

@[simp] theorem recover_careful (cause : Failure) : (Operation.recover command cause).careful = recover command cause := by
  simp [Operation.recover, recover]

theorem validateTransfer_eq (t : Transfer) : validateTransfer t command capacity = some (t.validate command capacity) := by
  simp only [validateTransfer, Transfer.validate, validate_eq]
  cases command.validate with
  | error cause => rfl
  | ok _ =>
    cases command.transfer? with
    | none => rfl
    | some run =>
      simp only [Option.bind_some, bind, Except.bind]
      split_ifs <;> rfl

@[simp] theorem takeNotice_careful (early : Option Failure) : (Operation.takeNotice early).careful = takeNotice early := by
  cases early <;> simp [Operation.takeNotice, takeNotice]

@[simp] theorem complete_careful (early : Option Failure) (report : Report) :
    (Operation.complete early report).careful = complete early report := by
  simp [Operation.complete, complete]

theorem undertake_careful (bytes : List UInt8) {t : Option Transfer} (h : Suits capacity command t) :
    (Operation.undertake command bytes t).careful = undertake capacity command bytes t := by
  simp [Operation.undertake, undertake, carryOut_careful bytes h]

theorem conduct_careful (bytes : List UInt8) {t : Option Transfer} (h : Suits capacity command t) :
    Operation.careful (do
      let pass ← Operation.undertake command bytes t
      match pass.outcome with
      | .ok report => return (.ok (← Operation.complete pass.early report), pass.delivered)
      | .error cause =>
        Operation.recover command cause
        return (.error cause, pass.delivered)) = conduct capacity command bytes t := by
  simp only [Operation.careful_bind, conduct, undertake_careful bytes h]
  refine bind_congr fun pass => ?_
  cases pass.outcome <;> simp

@[simp] theorem perform_careful (t : Option Transfer) : (Operation.perform command t).careful = perform command t := by
  unfold Operation.perform Operation.prepare Operation.accept perform accept
  cases hdata : command.transfer? with
  | none =>
    cases t with
    | some t => simp
    | none =>
      have hsuits : Suits 0 command none := by simp [Suits]
      simp only [Program.pure_eq, bind_assoc, Operation.careful_bind, Operation.careful_lift, Program.careful_done,
        liftM_pure, pure_bind, Operation.careful_get, encode_eq, liftM_some]
      refine bind_congr fun c => ?_
      cases command.encode c.drive c.recording with
      | error cause => simp
      | ok bytes => exact conduct_careful bytes hsuits
  | some run =>
    cases t with
    | none => simp
    | some t =>
      simp only [Program.pure_eq, liftM_bind, bind_assoc, Operation.careful_bind, Operation.careful_lift,
        Program.careful_done, liftM_pure, pure_bind, validateTransfer_eq, Careful.liftM_some, encode_eq, liftM_some]
      refine bind_congr fun capacity => ?_
      cases hvalid : t.validate command capacity with
      | error cause => simp [Except.map]
      | ok _ =>
        have hsuits : Suits capacity command (some t) := by
          rintro _ ⟨⟩
          exact Transfer.validate_eq_ok_iff.mp hvalid
        simp only [Except.map, bind_assoc, Operation.careful_bind, Operation.careful_get, Operation.careful_pure, pure_bind]
        refine bind_congr fun c => ?_
        cases command.encode c.drive c.recording with
        | error cause => simp
        | ok bytes => exact conduct_careful bytes hsuits

@[simp] theorem execute_careful : (Operation.execute command).careful = execute command := by
  simp [Operation.execute, execute]

@[simp] theorem executeWith_careful (t : Transfer) : (Operation.executeWith command t).careful = executeWith command t := by
  simp [Operation.executeWith, executeWith]

end CarefulOperation
end Diskette
