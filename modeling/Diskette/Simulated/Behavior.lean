import Diskette.Register.DigitalOutput
import Diskette.Simulated.Basic
import Diskette.Simulated.Order

/-! What the simulated controller does with the bytes on its data port, and on reset. -/
namespace Diskette.Simulated

/-- Interrupts, unless the gate is closed. -/
def signal (m : Simulated) : Simulated :=
  if !m.fdc.gateOpen || m.faults.silent then m
  else m.unit fun u => (u.raise m.fdc.irq).deliver

def answer (m : Simulated) (bytes : List UInt8) : Simulated :=
  { m with fdc := m.fdc.answer bytes }

/-- Ends a data command with the given status, or the one that a fault has in store. -/
def endTransfer (m : Simulated) (x : Extent) (st0 st1 st2 : UInt8) : Simulated :=
  let (st0, st1, st2) := m.faults.verdict.getD (st0, st1, st2)
  { m with faults := { m.faults with verdict := none } }.answer (x.result st0 st1 st2)

/-- A payload on the data port ends with its last sector, without a terminal count. -/
def endPortTransfer (m : Simulated) (x : Extent) : Simulated :=
  m.endTransfer x (x.unit ||| 0x40) 0x80 0x00

/-- The head arrives at a cylinder, and a sense is owed. -/
def arrive (m : Simulated) (drive : Drive) (head cylinder : UInt8) : Simulated :=
  let fdc := m.fdc.moveHead drive cylinder
  let st0 := (head <<< 2) ||| drive.index ||| 0x20
  signal { m with fdc := { fdc with pending := fdc.pending ++ [(st0, cylinder)] }.answer [] }

/-- The bytes that a data command moves by DMA. -/
def channelShare (m : Simulated) (x : Extent) (ch : ChannelState) : Nat :=
  let whole := min x.byteLength ch.count.toNat
  match m.faults.channelLimit with
  | some limit => min whole limit
  | none => whole

/-- Moves bytes between the bounce buffer, from where the channel points to, and the disk. -/
def moveBytes (m : Simulated) (write : Bool) (x : Extent) (address : UInt32) (count : Nat) :
    Simulated :=
  let offset := (address - m.interrupts.memory.bounceAddress).toNat
  if write then
    let bytes := m.interrupts.memory.read offset count
    { m with fdc := { m.fdc with disk := m.fdc.disk.write x bytes } }
  else
    let bytes := (m.fdc.disk.read x).take count
    m.unit fun u => { u with memory := u.memory.write offset bytes }

/-- Moves a payload through the DMA channel, or waits for ever if the channel is not set up for
it. -/
def channelTransfer (m : Simulated) (write : Bool) (x : Extent) : Simulated :=
  let ch := m.channels fdcChannel
  if m.fdc.gateOpen && ch.readyFor (if write then .fromMemory else .toMemory) then
    let count := m.channelShare x ch
    let remaining := ch.count - UInt32.ofNat count
    let m := m.moveBytes write x ch.address count
    let m := m.setChannel fdcChannel { ch with remaining, terminal := remaining == 0 }
    signal (m.endTransfer x x.unit 0 0)
  else { m with fdc := { m.fdc with stage := .stuck } }

def startTransfer (m : Simulated) (write : Bool) (x : Extent) : Simulated :=
  if m.fdc.nonDma then
    let stage := if write then .writing #[] x else .reading (m.fdc.disk.read x) 0 x
    { m with fdc := { m.fdc with stage } }
  else m.channelTransfer write x

/-- The cylinder so many steps away, held at the first and the last one. -/
def stepFrom (cylinder : UInt8) (outward : Bool) (cylinders : UInt8) : UInt8 :=
  UInt8.ofNat <|
    if outward then cylinder.toNat - cylinders.toNat
    else min (cylinder.toNat + cylinders.toNat) 255

def obey (m : Simulated) : Order → Simulated
  | .specify nonDma => { m with fdc := { m.fdc with nonDma } }.answer []
  | .senseDrive drive head =>
    let trackZero := bitIf (m.fdc.cylinders drive == 0) 0x10
    m.answer [(head <<< 2) ||| drive.index ||| 0x28 ||| trackZero]
  | .recalibrate drive => m.arrive drive 0 0
  | .senseInterrupt =>
    match m.fdc.pending with
    | [] => m.answer [0x80]
    | (st0, cylinder) :: pending =>
      { m with fdc := { m.fdc with pending } }.answer [st0, cylinder]
  | .readId drive head =>
    m.answer [(head <<< 2) ||| drive.index, 0, 0, m.fdc.cylinders drive, head, 1, 2]
  | .seek drive head cylinder => m.arrive drive head cylinder
  | .step drive outward cylinders =>
    m.arrive drive 0 (stepFrom (m.fdc.cylinders drive) outward cylinders)
  | .version => m.answer [0x90]
  | .transfer write extent => m.startTransfer write extent
  | .invalid => m.answer [0x80]

/-- Takes a byte of a command, and obeys the command when it is whole. -/
def takeCommandByte (m : Simulated) (value : UInt8) : Simulated :=
  let bytes := m.fdc.partialCommand ++ [value]
  let first := bytes.headD 0
  if bytes.length = Order.length first then
    obey { m with fdc :=
      { m.fdc with partialCommand := [], commands := first :: m.fdc.commands } } (.ofBytes bytes)
  else { m with fdc := { m.fdc with partialCommand := bytes } }

/-- A byte written to the data port. -/
def acceptByte (m : Simulated) (value : UInt8) : Simulated :=
  if m.fdc.status m.faults &&& 0x80 = 0 then m
  else match m.fdc.stage with
    | .command => m.takeCommandByte value
    | .writing taken x =>
      let taken := taken.push value
      if taken.size = x.byteLength then
        endPortTransfer { m with fdc :=
          { m.fdc with disk := m.fdc.disk.write x taken.toList } } x
      else { m with fdc := { m.fdc with stage := .writing taken x } }
    | _ => m

/-- A byte read from the data port. -/
def giveByte (m : Simulated) : UInt8 × Simulated :=
  if m.fdc.status m.faults &&& 0xC0 ≠ 0xC0 then (0xFF, m)
  else match m.fdc.stage with
    | .reading (value :: rest) gone x =>
      if rest.isEmpty then (value, m.endPortTransfer x)
      else (value, { m with fdc := { m.fdc with stage := .reading rest (gone + 1) x } })
    | .result =>
      let rest := m.fdc.results.tail
      (m.fdc.results.headD 0xFF, m.answer rest)
    | _ => (0xFF, m)

/-- Writes the digital output register. Reset wipes the controller; on the way out of it every
drive owes a sense. -/
def writeOutput (m : Simulated) (value : UInt8) : Simulated :=
  let wasReset := m.fdc.inReset
  let fdc := { m.fdc with output := value }
  if fdc.inReset then
    { m with fdc := { fdc with
        stage := .command
        partialCommand := []
        results := []
        pending := []
        nonDma := false } }
  else if wasReset then
    signal { m with fdc := { fdc with
      resets := fdc.resets + 1
      pending := fdc.pending ++ Drive.all.map fun drive =>
        (drive.index ||| 0xC0, fdc.cylinders drive) } }
  else { m with fdc }

end Diskette.Simulated
