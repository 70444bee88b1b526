import Diskette.Proofs.Careful.Encoding

/-!
The data port and the wait for an interrupt, with care. The bytes of a result go where there is room for seven, those
of a payload into its sector; a countdown is never taken below zero.
-/
namespace Diskette

variable {α β : Type} {base : UInt16} {ready : MainStatus → Bool} {line : Option Line} {n : ResultLength}

namespace Careful

@[simp] theorem liftM_some (a : α) : (liftM (some a) : Careful α) = pure a := rfl

def uninterrupted (p : Careful α) : Careful α := do
  let wasEnabled ← Platform.suppress.careful
  let result ← p
  (Platform.resume wasEnabled).careful
  return result

@[simp] theorem uninterrupted_careful (p : Routine α) :
    (Platform.uninterrupted p).careful = uninterrupted p.careful := by
  simp [Platform.uninterrupted, uninterrupted]

/-- Looks once a millisecond, for as long as some are left. -/
def awaitStatusDown (base : UInt16) (ready : MainStatus → Bool) : (left : Nat) → Careful Bool
  | 0 => do
    if ready (← (Fifo.readStatus base).careful) then return true
    else failure
  | left + 1 => do
    if ready (← (Fifo.readStatus base).careful) then return true
    else if left = 0 then return false
    else
      (Platform.delay 1).careful
      awaitStatusDown base ready left

def awaitStatus (base : UInt16) (ready : MainStatus → Bool) (ms : Nat) : Careful Bool :=
  awaitStatusDown base ready (max ms 1)

def watch (e : Expectation) (line : Option Line) (poll : Careful Bool) (last : Bool) : Careful (Option WaitEnd) := do
  match ← (e.trusted line).careful with
  | some (l, expected) =>
    if caughtUp (← l.fired.careful) expected then
      l.acknowledge.careful
      return some .interrupt
    else if last then
      return if ← poll then some .polled else none
    else
      return none
  | none => return if ← poll then some .polled else none

def wait (e : Expectation) (line : Option Line) (poll : Careful Bool) : (left : Nat) → Careful (WaitEnd × Expectation)
  | 0 => do
    match ← watch e line poll true with
    | some result => return (result, .fired)
    | none => return (.timedOut, .idle)
  | left + 1 => do
    match ← watch e line poll false with
    | some result => return (result, .fired)
    | none =>
      (Platform.delay 1).careful
      wait e line poll left

theorem awaitStatusDown_eq (left : Nat) :
    awaitStatusDown base ready (left + 1) = (Fifo.awaitStatusFor base ready left).careful := by
  induction left with
  | zero =>
    simp only [awaitStatusDown, Fifo.awaitStatusFor, Program.careful_bind, Program.careful_pure]
    refine bind_congr fun status => ?_
    cases ready status <;> rfl
  | succ left ih =>
    rw [awaitStatusDown]
    simp [Fifo.awaitStatusFor, ih]

@[simp] theorem awaitStatus_careful (ms : Nat) :
    (Fifo.awaitStatus base ready ms).careful = awaitStatus base ready ms := by
  have hms : max ms 1 = ms - 1 + 1 := by omega
  rw [awaitStatus, hms, awaitStatusDown_eq]
  rfl

@[simp] theorem watch_careful (e : Expectation) (poll : Routine Bool) (last : Bool) :
    (e.watch line poll last).careful = watch e line poll.careful last := by
  simp only [Expectation.watch, watch, Program.careful_bind]
  refine bind_congr fun trusted => ?_
  cases trusted <;> simp

@[simp] theorem wait_careful (e : Expectation) (poll : Routine Bool) (ms : Nat) :
    (e.wait line poll ms).careful = wait e line poll.careful ms := by
  induction ms with
  | zero =>
    simp only [Expectation.wait, wait, Program.careful_bind, watch_careful]
    refine bind_congr fun result => ?_
    cases result <;> rfl
  | succ ms ih =>
    simp only [Expectation.wait, wait, Program.careful_bind, watch_careful]
    refine bind_congr fun result => ?_
    cases result <;> simp [ih]

/-- At the most so many bytes. -/
abbrev Collected (most : Nat) : Type := { bytes : List UInt8 // bytes.length ≤ most }

def Collected.nothing (most : Nat) : Collected most := ⟨[], Nat.zero_le most⟩

def Collected.push {most : Nat} (b : UInt8) (rest : Collected most) : Collected (most + 1) :=
  ⟨b :: rest.1, Nat.succ_le_succ rest.2⟩

/-- Reads bytes behind those that are held already. -/
def collect (base : UInt16) : (most held : Nat) → Careful (Collected most)
  | 0, _ => return .nothing 0
  | most + 1, held => do
    if ← (Fifo.readable base).careful then
      let b ← (Platform.input (Port.data base)).careful
      room? maxResult held 1
      return .push b (← collect base most (held + 1))
    else
      return .nothing (most + 1)

def receive (base : UInt16) (n : ResultLength) : Careful (Except Failure (ResultBytes n)) := do
  let bytes ← collect base (min n.most maxResult) 0
  return if h : n.fewest ≤ bytes.1.length then
    .ok ⟨bytes.1, h, Nat.le_trans bytes.2 (Nat.min_le_left _ _)⟩
  else .error .resultTimeout

def finish (base : UInt16) : Careful (Except Failure Unit) := do
  let _ ← (Fifo.awaitReadyWithin base Fifo.settleLooks).careful
  if ← awaitStatus base (fun s => !s.busy) Fifo.busyTimeout then return .ok ()
  else return .error .resultTimeout

def awaitResult (base : UInt16) : Careful (Except Failure Unit) := do
  if ← awaitStatus base MainStatus.dataReady Fifo.resultTimeout then return .ok ()
  else return .error .resultTimeout

def awaitAnswer (base : UInt16) (n : ResultLength) : Careful (Except Failure Unit) :=
  if n.most > 0 then awaitResult base else return .ok ()

def transact (base : UInt16) (bytes : List UInt8) (n : ResultLength) :
    Careful (Except Failure (ResultBytes n)) := ExceptT.run do
  ExceptT.mk (uninterrupted (Fifo.send base bytes).careful)
  ExceptT.mk (awaitAnswer base n)
  let result ← ExceptT.mk (uninterrupted (receive base n))
  ExceptT.mk (finish base)
  return result

theorem collect_eq {most held : Nat} (h : held + most ≤ maxResult) :
    collect base most held = (Fifo.collect base most).careful := by
  induction most generalizing held with
  | zero => rfl
  | succ most ih =>
    have hroom : room? maxResult held 1 = some () := room?_eq (by omega)
    simp [collect, Fifo.collect, Collected.push, Collected.nothing, hroom, ih (show held + 1 + most ≤ maxResult by omega)]

@[simp] theorem receive_careful : (Fifo.receive base n).careful = receive base n := by
  have hroom : 0 + min n.most maxResult ≤ maxResult := by omega
  simp [Fifo.receive, receive, collect_eq hroom]

@[simp] theorem finish_careful : (Fifo.finish base).careful = finish base := by
  simp [Fifo.finish, finish]

@[simp] theorem awaitResult_careful : (Fifo.awaitResult base).careful = awaitResult base := by
  simp [Fifo.awaitResult, awaitResult]

@[simp] theorem awaitAnswer_careful : (Fifo.awaitAnswer base n).careful = awaitAnswer base n := by
  simp [Fifo.awaitAnswer, awaitAnswer]

theorem careful_run_bind (x : ExceptT Failure Routine α) (f : α → ExceptT Failure Routine β) :
    Program.careful (x >>= f).run =
      (ExceptT.mk (Program.careful x.run) >>= fun a => ExceptT.mk (Program.careful (f a).run)).run := by
  simp only [ExceptT.run_bind, Program.careful_bind, ExceptT.run_mk]
  refine bind_congr fun r => ?_
  cases r <;> rfl

@[simp] theorem transact_careful (bytes : List UInt8) :
    (Fifo.transact base bytes n).careful = transact base bytes n := by
  simp only [Fifo.transact, transact, careful_run_bind, ExceptT.run_mk, uninterrupted_careful, awaitAnswer_careful,
    receive_careful, finish_careful]
  rfl

def payloadReady (base : UInt16) (ready : MainStatus → Bool) (ms : Nat) : Careful Bool := do
  match ← (Fifo.awaitReady base).careful with
  | some _ => awaitStatus base ready ms
  | none => return false

/-- Reads bytes into a sector of so many, behind those in `taken`. -/
def takePayload (base : UInt16) (ms size : Nat) : (count : Nat) → (taken : List UInt8) → Careful (List UInt8)
  | 0, taken => return taken
  | count + 1, taken => do
    if ← payloadReady base MainStatus.canReadPayload ms then
      let b ← (Platform.input (Port.data base)).careful
      room? size taken.length 1
      let _ ← plus? UInt64.size taken.length 1
      takePayload base ms size count (b :: taken)
    else
      return taken

def readPayload (base : UInt16) (ms size : Nat) : Careful (List UInt8) := do
  return (← takePayload base ms size size []).reverse

/-- Writes so many more bytes of a sector, from a place in it on. -/
def givePayload (base : UInt16) (ms : Nat) (sector : List UInt8) : (count given : Nat) → Careful Nat
  | 0, given => return given
  | count + 1, given => do
    if ← payloadReady base MainStatus.canWritePayload ms then
      (Platform.output (Port.data base) (← sector[given]?)).careful
      givePayload base ms sector count (← plus? UInt64.size given 1)
    else
      return given

def writePayload (base : UInt16) (ms : Nat) (sector : List UInt8) : Careful Nat :=
  givePayload base ms sector sector.length 0

@[simp] theorem payloadReady_careful (ms : Nat) :
    (Fifo.payloadReady base ready ms).careful = payloadReady base ready ms := by
  simp only [Fifo.payloadReady, payloadReady, Program.careful_bind]
  refine bind_congr fun status => ?_
  cases status <;> simp

theorem takePayload_eq {ms size count : Nat} {taken : List UInt8} (hsize : size < UInt64.size)
    (h : taken.length + count ≤ size) :
    takePayload base ms size count taken = (Fifo.takePayload base ms count taken).careful := by
  induction count generalizing taken with
  | zero => rfl
  | succ count ih =>
    have hroom : room? size taken.length 1 = some () := room?_eq (by omega)
    have hplus : plus? UInt64.size taken.length 1 = some (taken.length + 1) := plus?_eq (by omega)
    have hnext (b : UInt8) : (b :: taken).length + count ≤ size := by
      simp only [List.length_cons]
      omega
    have hrest (b : UInt8) := ih (hnext b)
    simp [takePayload, Fifo.takePayload, hroom, hplus, hrest]

theorem readPayload_eq {ms size : Nat} (h : size < UInt64.size) :
    readPayload base ms size = (Fifo.readPayload base ms size).careful := by
  have htake : takePayload base ms size size [] = (Fifo.takePayload base ms size []).careful :=
    takePayload_eq h (by simp)
  simp [readPayload, Fifo.readPayload, htake]

theorem givePayload_eq {ms count given : Nat} {sector : List UInt8} (hsize : sector.length < UInt64.size)
    (h : given + count = sector.length) :
    givePayload base ms sector count given = (Fifo.givePayload base ms (sector.drop given) given).careful := by
  induction count generalizing given with
  | zero =>
    have hnone : sector.drop given = [] := List.drop_eq_nil_of_le (by omega)
    rw [hnone]
    rfl
  | succ count ih =>
    have hlt : given < sector.length := by omega
    have hplus : plus? UInt64.size given 1 = some (given + 1) := plus?_eq (by omega)
    have hnext : given + 1 + count = sector.length := by omega
    have hrest := ih hnext
    rw [List.drop_eq_getElem_cons hlt]
    simp [givePayload, Fifo.givePayload, hplus, hrest, hlt]

theorem writePayload_eq {ms : Nat} {sector : List UInt8} (h : sector.length < UInt64.size) :
    writePayload base ms sector = (Fifo.writePayload base ms sector).careful :=
  givePayload_eq h (Nat.zero_add _)

end Careful
end Diskette
