import Diskette.Controller.BringUp
import Diskette.Controller.Execute
import Diskette.Machine.Observed
import Diskette.Machine.Scripted
import Diskette.Pc.System
import Diskette.Simulated.Machine

/-!
A bench to try the driver on: one machine of some kind, and at most one controller. The machine
outlives its controllers.
-/
namespace Diskette

inductive Host
  | simulated (o : Observed Simulated)
  | scripted (o : Observed Scripted)
  | pc (s : Pc.System)

namespace Host

def step (h : Host) (c : Platform.Call) : Platform.Reply c × Host :=
  match h with
  | simulated o =>
    let (reply, o) := Simulated.machine.observed.step c o
    (reply, simulated o)
  | scripted o =>
    let (reply, o) := Scripted.machine.observed.step c o
    (reply, scripted o)
  | pc s =>
    let (reply, s) := Pc.System.machine.step c s
    (reply, pc s)

def machine : Machine Platform Host := ⟨fun c h => h.step c⟩

def memory : Host → Memory
  | simulated o => o.machine.interrupts.memory
  | scripted o => o.machine.interrupts.memory
  | pc s => s.hardware.memory

def vectors : Host → UInt8 → Option Handler
  | simulated o => o.machine.interrupts.vectors
  | scripted o => o.machine.interrupts.vectors
  | pc s => s.hardware.vectors

/-- Changes the interrupt unit of a machine that has one, past everything else. -/
def unit (h : Host) (f : InterruptUnit → InterruptUnit) : Host :=
  match h with
  | simulated o => simulated { o with machine := o.machine.unit f }
  | scripted o => scripted { o with machine := o.machine.unit f }
  | pc s => pc s

/-- Interrupts from outside. -/
def fire (h : Host) (irq : UInt8) (count : Nat) : Host :=
  match h with
  | pc s => pc ((List.range count).foldl (fun s _ => s.raise irq) s)
  | h => h.unit (·.fire irq count)

/-- What has been observed since the last time: events, port reads and text on the console. -/
def takeObserved (h : Host) : (List String × Nat × String) × Host :=
  match h with
  | simulated o =>
    let (events, reads, trace) := o.trace.take
    let (text, console) := o.console.take
    ((events, reads, text), simulated { o with trace, console })
  | scripted o =>
    let (events, reads, trace) := o.trace.take
    let (text, console) := o.console.take
    ((events, reads, text), scripted { o with trace, console })
  | pc s =>
    let (events, reads, trace) := s.hardware.trace.take
    ((events, reads, Utf8.decode s.hardware.serial),
      pc { s with hardware := { s.hardware with trace, serial := #[] } })

end Host

structure Bench where
  host : Host
  controller : Option Controller := none

namespace Bench

def perform {α : Type} (b : Bench) (routine : Routine α) : α × Bench :=
  let (a, host) := routine.run Host.machine b.host
  (a, { b with host })

/-- Runs an operation on the controller, if there is one. -/
def operate {α : Type} (b : Bench) (op : Operation α) : Option α × Bench :=
  match b.controller with
  | none => (none, b)
  | some c =>
    let ((a, c), b) := b.perform (StateT.run op c)
    (some a, { b with controller := some c })

/-- Takes a controller in place of the one there is; tells whether one was found. -/
def adopt (b : Bench) (found : Routine (Option Controller)) : Bool × Bench :=
  let (controller, b) := b.perform found
  (controller.isSome, { b with controller })

def dropController (b : Bench) : Bench := { b with controller := none }

/-- Releases the controller; tells whether there was one. -/
def release (b : Bench) : Bool × Bench :=
  let (released, b) := b.operate Operation.release
  (released.isSome, b.dropController)

end Bench

end Diskette
