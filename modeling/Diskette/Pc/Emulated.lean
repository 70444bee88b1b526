import Diskette.Machine.Script
import Diskette.Pc.VectorTable
import Diskette.Trace

/-!
Hardware for a processor to run on: interrupt masks, a timer, a serial port and a scripted floppy
controller, or a queue of bytes for any port. Interrupts are delivered after each instruction. The
flag reads as set at all times.
-/
namespace Diskette.Pc

structure Emulated where
  script : Script := {}
  queues : List (UInt16 × List UInt8) := []
  counter : Nat := 65535
  period : Nat := 65536
  /-- Steps of the counter from one latch to the next. -/
  countStep : Nat := 30000
  latched : Nat := 0
  /-- The high byte of the latched count comes next. -/
  highNext : Bool := false
  masks1 : UInt8 := 0xFF
  masks2 : UInt8 := 0xFF
  pending : UInt16 := 0
  enabled : Bool := true
  vectors : UInt8 → Option Handler := fun _ => none
  memory : Memory := {}
  /-- Bytes written to the serial port. -/
  serial : Array UInt8 := #[]
  trace : Trace := {}

namespace Emulated

def raise (e : Emulated) (irq : UInt8) : Emulated :=
  { e with pending := e.pending ||| (1 <<< irq.toUInt16) }

/-- Takes a step of the script over, with the line it raised. -/
def follow (e : Emulated) : Option UInt8 × Script → Emulated
  | (some irq, script) => { e with script }.raise irq
  | (none, script) => { e with script }

/-- The next byte of a port's queue, if it has one; the last byte repeats. -/
def dequeue (e : Emulated) (port : UInt16) : Option (UInt8 × Emulated) :=
  match e.queues.lookup port with
  | none => none
  | some bytes =>
    let (b, rest) := nextAnswer bytes 0xFF
    let queues := e.queues.map fun q => if q.1 = port then (port, rest) else q
    some (b, { e with queues })

def readCounter (e : Emulated) : UInt8 × Emulated :=
  (UInt8.ofNat (if e.highNext then e.latched / 256 else e.latched),
    { e with highNext := !e.highNext })

def readPort (e : Emulated) (port : UInt16) : UInt8 × Emulated :=
  match e.dequeue port with
  | some answer => answer
  | none =>
    if port = 0x21 then (e.masks1, e)
    else if port = 0xA1 then (e.masks2, e)
    else if port = 0x40 then e.readCounter
    else if port = 0x3FD then (0x20, e)
    else
      let (b, next) := e.script.read port
      (b, e.follow next)

/-- Latches the count; the time until the next latch passes. -/
def latch (e : Emulated) : Emulated :=
  { e with
    latched := e.counter
    highNext := false
    counter := (e.counter + e.period - e.countStep % e.period) % e.period
  }.follow (e.script.elapse 1)

def writePort (e : Emulated) (port : UInt16) (value : UInt8) : Emulated :=
  if port = 0x21 then { e with masks1 := value }
  else if port = 0xA1 then { e with masks2 := value }
  else if port = 0x43 then e.latch
  else if port = 0x3F8 then { e with serial := e.serial.push value }
  else e.follow (e.script.write port value)

def note (e : Emulated) (event : Trace.Event) : Emulated := { e with trace := e.trace.add event }

/-- An instruction, before any interrupt that it lets through. -/
def instruct (e : Emulated) : (c : Cpu.Call) → Cpu.Reply c × Emulated
  | .input port =>
    let (b, e) := e.readPort port
    (b, e.note (.input port b))
  | .output port value => ((), (e.note (.output port #[value])).writePort port value)
  | .clearFlag => ((), { e.note (.note "cli") with enabled := false })
  | .setFlag => ((), { e.note (.note "sti") with enabled := true })
  | .readFlag => (true, e)
  | .loadVector irq => (e.vectors irq, e)
  | .storeVector irq handler =>
    ((), { e with vectors := fun i => if i = irq then handler else e.vectors i })
  | .countFire id =>
    let (stormy, memory) := e.memory.countFire id
    (stormy, { e with memory })
  | .memory c =>
    let (reply, memory) := e.memory.step c
    (reply, { e with memory })

def bare : Machine Cpu Emulated := ⟨fun c e => e.instruct c⟩

def masked (e : Emulated) (irq : UInt8) : Bool :=
  if irq < 8 then e.masks1 &&& (1 <<< irq) != 0 else e.masks2 &&& (1 <<< (irq - 8)) != 0

/-- The lowest line whose interrupt can be delivered. -/
def deliverable (e : Emulated) : Option UInt8 :=
  if e.enabled then
    ((List.range 16).map UInt8.ofNat).find? fun irq =>
      e.pending &&& (1 <<< irq.toUInt16) != 0 && !e.masked irq
  else none

/-- Delivers what can be delivered, so many interrupts at the most. A handler runs with the flag
clear. -/
def deliver (e : Emulated) : (count : Nat) → Emulated
  | 0 => e
  | count + 1 =>
    match e.deliverable with
    | none => e
    | some irq =>
      let begun := { e with pending := e.pending &&& ~~~(1 <<< irq.toUInt16), enabled := false }
      let ended := ((VectorTable.dispatch irq).run bare begun).2
      deliver { ended with enabled := true } count

/-- Delivers all that can be delivered. Each delivery takes one pending line away, and only a new
phase of the script brings one. -/
def settle (e : Emulated) : Emulated :=
  if e.pending = 0 then e else e.deliver (16 + e.script.phases.size)

def step (e : Emulated) (c : Cpu.Call) : Cpu.Reply c × Emulated :=
  let (reply, e) := e.instruct c
  match c with
  | .input _ | .output _ _ | .clearFlag | .setFlag => (reply, e.settle)
  | _ => (reply, e)

def machine : Machine Cpu Emulated := ⟨fun c e => e.step c⟩

end Emulated

end Diskette.Pc
