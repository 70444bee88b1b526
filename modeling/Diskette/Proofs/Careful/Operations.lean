import Diskette.Proofs.Careful.Fifo

/-!
Operations without a command, with care: changes of the output register, reset, the two data paths, and the discovery
of a controller.
-/
namespace Diskette

variable {α β : Type}

open Careful

namespace CarefulShadow

def writeOutput (m : Shadow) (output : DigitalOutput) : Careful Shadow := do
  (Platform.output (Port.digitalOutput m.base) (← encodeOutput output)).careful
  return { m with output }

def setMotor (m : Shadow) (drive : Drive) (on : Bool) : Careful Shadow := do
  writeOutput m (← Careful.setMotor m.output drive on)

def selectDrive (m : Shadow) (drive : Drive) : Careful Shadow := writeOutput m { m.output with drive }

def setReset (m : Shadow) (asserted : Bool) : Careful Shadow :=
  writeOutput m { m.output with resetAsserted := asserted }

def setGate (m : Shadow) (connected : Bool) : Careful Shadow := writeOutput m { m.output with gate := connected }

def resync (m : Shadow) : Careful Unit := do
  (Platform.output (Port.digitalOutput m.base) (← encodeOutput m.output)).careful
  (Platform.output (Port.configControl m.base) m.rate.encode).careful

@[simp] theorem writeOutput_careful (m : Shadow) (output : DigitalOutput) :
    (m.writeOutput output).careful = writeOutput m output := by
  simp [Shadow.writeOutput, writeOutput, encodeOutput_eq]

@[simp] theorem setMotor_careful (m : Shadow) (drive : Drive) (on : Bool) :
    (m.setMotor drive on).careful = setMotor m drive on := by
  simp [Shadow.setMotor, setMotor, setMotor_eq]

@[simp] theorem selectDrive_careful (m : Shadow) (drive : Drive) :
    (m.selectDrive drive).careful = selectDrive m drive := writeOutput_careful m _

@[simp] theorem setReset_careful (m : Shadow) (asserted : Bool) :
    (m.setReset asserted).careful = setReset m asserted := writeOutput_careful m _

@[simp] theorem setGate_careful (m : Shadow) (connected : Bool) :
    (m.setGate connected).careful = setGate m connected := writeOutput_careful m _

@[simp] theorem resync_careful (m : Shadow) : m.resync.careful = resync m := by
  simp [Shadow.resync, resync, encodeOutput_eq]

end CarefulShadow

namespace CarefulOperation

@[simp] theorem liftM_some (a : α) : (liftM (some a) : CarefulOperation α) = pure a := rfl

@[simp] theorem attempt_liftM_some (a : α) : (liftM (some a) : CarefulAttempt α) = pure a := rfl

@[simp] theorem delivery_liftM_some (a : α) : (liftM (some a) : CarefulDelivery α) = pure a := rfl

def shadowed (change : Shadow → Careful Shadow) : CarefulOperation Unit := do
  let shadow ← change (← get).shadow
  modify fun c => { c with shadow }

def setMotor (drive : Drive) (on : Bool) : CarefulOperation Unit := shadowed (CarefulShadow.setMotor · drive on)

def selectDrive (drive : Drive) : CarefulOperation Unit := shadowed (CarefulShadow.selectDrive · drive)

def specify (path : DataPath) : CarefulAttempt Unit := do
  let c ← get
  let bytes ← commandBytes (.standardSpecify path) c.drive c.recording
  let _ ← .of (transact c.base bytes (.exactly 0))
  modify fun c => { c with specified := some path }

def drain : (count : Nat) → CarefulOperation Unit
  | 0 => return ()
  | count + 1 => do
    let c ← get
    let bytes ← commandBytes .senseInterrupt c.drive c.recording
    match ← transact c.base bytes (.between 1 2) with
    | .ok result =>
      let st0 ← result.byte? 0
      unless st0 = Operation.nothingPending do
        (Operation.log (.drained st0)).careful
        drain count
    | .error _ => return ()

def pulseReset : CarefulOperation Unit := do
  shadowed (CarefulShadow.setReset · true)
  (Platform.delay Operation.resetHold).careful
  shadowed (CarefulShadow.setReset · false)

def awaitRestart : CarefulOperation Unit := do
  unless ← awaitStatus (← get).base MainStatus.dataReady Fifo.resultTimeout do
    (Operation.log .notReadyAfterReset).careful

def respecify : CarefulOperation Unit := do
  match ← (specify (← get).path).run with
  | .ok () => return ()
  | .error cause => (Operation.log (.specifyFailed cause)).careful

def reset : CarefulOperation Unit := do
  (Operation.log .resetting).careful
  pulseReset
  awaitRestart
  let _ ← Operation.mainStatus.careful
  CarefulShadow.resync (← get).shadow
  drain 4
  Operation.acknowledgeLine.careful
  modify fun c => { c with expectation := .idle, specified := none }
  respecify
  (Operation.setPhase .ready).careful

theorem shadowed_careful {change : Shadow → Routine Shadow} {change' : Shadow → Careful Shadow}
    (h : ∀ m, (change m).careful = change' m) :
    Operation.careful (Operation.shadowed change) = shadowed change' := by
  simp [Operation.shadowed, shadowed, h]

@[simp] theorem setMotor_careful (drive : Drive) (on : Bool) :
    (Operation.setMotor drive on).careful = setMotor drive on := shadowed_careful (by simp)

@[simp] theorem selectDrive_careful (drive : Drive) :
    (Operation.selectDrive drive).careful = selectDrive drive := shadowed_careful (by simp)

@[simp] theorem specify_careful (path : DataPath) : (Operation.specify path).careful = specify path := by
  have hvalid : (Command.standardSpecify path).validate = .ok () := by cases path <;> rfl
  simp [Operation.specify, specify, commandBytes_eq hvalid]

@[simp] theorem drain_careful (count : Nat) : Operation.careful (Operation.drain count) = drain count := by
  induction count with
  | zero => rfl
  | succ count ih =>
    have hvalid : Command.senseInterrupt.validate = .ok () := rfl
    have hbyte (result : ResultBytes (.between 1 2)) : result.byte? 0 = some (result.byte 0) := result.byte?_val 0
    simp only [Operation.drain, drain, Operation.careful_bind, Operation.careful_get, commandBytes_eq hvalid, liftM_some,
      pure_bind, Operation.careful_lift, transact_careful]
    refine bind_congr fun c => bind_congr fun result => ?_
    cases result with
    | ok result => simp [hbyte, ih]
    | error cause => simp

@[simp] theorem pulseReset_careful : Operation.careful Operation.pulseReset = pulseReset := by
  have hset (asserted : Bool) := shadowed_careful fun m => CarefulShadow.setReset_careful m asserted
  simp [Operation.pulseReset, pulseReset, hset]

@[simp] theorem awaitRestart_careful : Operation.careful Operation.awaitRestart = awaitRestart := by
  simp [Operation.awaitRestart, awaitRestart]

@[simp] theorem respecify_careful : Operation.careful Operation.respecify = respecify := by
  simp only [Operation.respecify, respecify, Operation.careful_bind, Operation.careful_get, Attempt.careful_run,
    specify_careful]
  refine bind_congr fun c => bind_congr fun result => ?_
  cases result <;> simp

@[simp] theorem reset_careful : Operation.careful Operation.reset = reset := by
  simp [Operation.reset, reset]

def closeGate : CarefulOperation Unit := do
  if (← get).shadow.output.gate then shadowed (CarefulShadow.setGate · false)

def disableDma : CarefulOperation Unit := do
  Operation.maskIfHooked.careful
  closeGate
  Operation.unbind.careful
  Operation.logPolled.careful
  modify fun c => { c with path := .port }

def hookLine (line : Line) : CarefulOperation Unit := do
  (Platform.maskLine line.irq).careful
  shadowed (CarefulShadow.setGate · true)
  let prior ← (Platform.uninterrupted (Platform.bind line.irq (.counting line))).careful
  modify fun c => { c with hooked := true, prior }
  line.acknowledge.careful
  (Platform.unmaskLine line.irq).careful
  modify fun c => { c with path := .channel }
  (Operation.log (.interruptDriven line.irq)).careful

def enableDma : CarefulAttempt Unit := do
  let c ← get
  if c.channel.isNone then throw (.invalidParameters .noDmaChannel)
  match c.line with
  | none => throw (.invalidParameters .noIrqLine)
  | some line =>
    if ← line.degraded.careful then throw (.interruptStorm line.irq)
    unless c.path = .channel do hookLine line

def abandonLine (line : Line) : CarefulOperation Unit := do
  if (← get).holdsLine then
    (Operation.log (.storm line.irq)).careful
    disableDma

def noticeStorm : CarefulOperation (Option Failure) := do
  match (← get).line with
  | none => return none
  | some line =>
    if ← line.degraded.careful then
      abandonLine line
      return if (← get).stormReported then none else some (.interruptStorm line.irq)
    else
      return none

def release : CarefulOperation Unit := do
  shadowed fun s => CarefulShadow.writeOutput s { drive := s.output.drive }
  Operation.maskIfHooked.careful
  Operation.unbind.careful
  Operation.maskChannel.careful
  modify fun c => { c with path := .port }
  (Operation.log .released).careful

theorem setGate_careful (connected : Bool) :
    Operation.careful (Operation.shadowed (·.setGate connected)) = shadowed (CarefulShadow.setGate · connected) :=
  shadowed_careful (by simp)

@[simp] theorem closeGate_careful : Operation.careful Operation.closeGate = closeGate := by
  simp [Operation.closeGate, closeGate, setGate_careful]

@[simp] theorem disableDma_careful : Operation.careful Operation.disableDma = disableDma := by
  simp [Operation.disableDma, disableDma]

@[simp] theorem hookLine_careful (line : Line) : (Operation.hookLine line).careful = hookLine line := by
  simp [Operation.hookLine, hookLine, setGate_careful]

@[simp] theorem enableDma_careful : Attempt.careful Operation.enableDma = enableDma := by
  simp only [Operation.enableDma, enableDma, Attempt.careful_bind, Attempt.careful_get]
  refine bind_congr fun c => ?_
  cases c.line <;> simp

@[simp] theorem abandonLine_careful (line : Line) : (Operation.abandonLine line).careful = abandonLine line := by
  simp [Operation.abandonLine, abandonLine]

@[simp] theorem noticeStorm_careful : Operation.careful Operation.noticeStorm = noticeStorm := by
  simp only [Operation.noticeStorm, noticeStorm, Operation.careful_bind, Operation.careful_get]
  refine bind_congr fun c => ?_
  cases c.line <;> simp

@[simp] theorem release_careful : Operation.careful Operation.release = release := by
  have hset := shadowed_careful fun m => CarefulShadow.writeOutput_careful m { drive := m.output.drive }
  simp [Operation.release, release, hset]

def classify (placement : Placement) : Careful Controller := do
  let base := placement.base
  let irq := placement.irq.filter Placement.usableIrq
  let channel := placement.channel.filter Placement.usableChannel
  let a ← (Platform.input (Port.statusA base)).careful
  let b ← (Platform.input (Port.statusB base)).careful
  let input ← (Platform.input (Port.digitalInput base)).careful
  let output := DigitalOutput.firmwareDefault (irq.isSome && channel.isSome)
  let shadow ← CarefulShadow.writeOutput { base, output } output
  let _ ← (Fifo.readStatus base).careful
  let readBack ← (Platform.input (Port.digitalOutput base)).careful
  let expected ← encodeOutput output
  let line ← (Controller.openLine irq).careful
  return {
    shadow, line, channel
    features := {
      ps2 := a &&& b != Controller.floating
      atClass := input != Controller.floating
      outputReadable := readBack == expected } }

def probe (placement : Placement) : Careful (Option Controller) := do
  if (← (Platform.input (Port.mainStatus placement.base)).careful) = Controller.floating then
    (Platform.log placement.base .nothingPresent).careful
    return none
  else
    return some (← classify placement)

def resetUnready : CarefulOperation Unit := do
  let status ← Operation.mainStatus.careful
  if status.busy || !status.canWrite then
    (Operation.log (.foundUnready status)).careful
    reset

def chooseChannel : CarefulOperation Unit := do
  let c ← get
  if c.line.isSome && c.channel.isSome then
    match ← enableDma.run with
    | .ok () => return ()
    | .error cause => (Operation.log (.stayingPolled cause)).careful

def bringUp : CarefulOperation Unit := do
  resetUnready
  chooseChannel
  let c ← get
  (Operation.log (.found c.irq c.channel c.features c.path)).careful

def discover (placement : Placement) : Careful (Option Controller) := do
  match ← probe placement with
  | none => return none
  | some c => return some (← bringUp.run c).2

@[simp] theorem classify_careful (placement : Placement) :
    (Controller.classify placement).careful = classify placement := by
  simp [Controller.classify, classify, encodeOutput_eq]

@[simp] theorem probe_careful (placement : Placement) : (Controller.probe placement).careful = probe placement := by
  simp [Controller.probe, probe]

@[simp] theorem resetUnready_careful : Operation.careful Controller.resetUnready = resetUnready := by
  simp [Controller.resetUnready, resetUnready]

@[simp] theorem chooseChannel_careful : Operation.careful Controller.chooseChannel = chooseChannel := by
  simp only [Controller.chooseChannel, chooseChannel, Operation.careful_bind, Operation.careful_get,
    Operation.careful_ite, Attempt.careful_run, enableDma_careful, Operation.careful_pure]
  refine bind_congr fun c => ?_
  split
  · refine bind_congr fun result => ?_
    cases result <;> rfl
  · rfl

@[simp] theorem bringUp_careful : Operation.careful Controller.bringUp = bringUp := by
  simp [Controller.bringUp, bringUp]

@[simp] theorem discover_careful (placement : Placement) :
    (Controller.discover placement).careful = discover placement := by
  simp only [Controller.discover, discover, Program.careful_bind, probe_careful]
  refine bind_congr fun c => ?_
  cases c with
  | none => rfl
  | some c =>
    simp [← bringUp_careful, Operation.careful, StateT.run]

end CarefulOperation
end Diskette
