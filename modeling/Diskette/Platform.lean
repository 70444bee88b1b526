import Diskette.Channel
import Diskette.Interrupt.Handler
import Diskette.Log.Event
import Diskette.Memory

/-!
Everything the driver needs of the machine around it: ports, a delay, an interrupt controller, DMA
channels, a vector table, the processor's interrupt flag, shared memory and a log.
-/
namespace Diskette

inductive Platform.Call
  | input (port : UInt16)
  | output (port : UInt16) (value : UInt8)
  | delay (ms : UInt32)
  | maskLine (irq : UInt8)
  | unmaskLine (irq : UInt8)
  | endOfInterrupt (irq : UInt8)
  | channel (number : UInt8) (c : Channel.Call)
  /-- Installs a handler and hands back the one it displaces. -/
  | bind (irq : UInt8) (handler : Handler)
  | restore (irq : UInt8) (prior : Option Handler)
  /-- Clears the interrupt flag and tells whether it was set. -/
  | suppress
  /-- Sets the interrupt flag again if it was set. -/
  | resume (wasEnabled : Bool)
  | memory (c : Memory.Call)
  | log (base : UInt16) (event : Log.Event)
  deriving DecidableEq, Repr

abbrev Platform.Reply : Platform.Call → Type
  | .input _ => UInt8
  | .channel _ c => Channel.Reply c
  | .bind _ _ => Option Handler
  | .suppress => Bool
  | .memory c => Memory.Reply c
  | _ => Unit

abbrev Platform : Interface := ⟨Platform.Call, Platform.Reply⟩

/-- A program of the driver, for whatever platform. -/
abbrev Routine := Program Platform

namespace Platform

def input (port : UInt16) : Routine UInt8 := .call (.input port) .done
def output (port : UInt16) (value : UInt8) : Routine Unit := .call (.output port value) .done
def delay (ms : UInt32) : Routine Unit := .call (.delay ms) .done
def maskLine (irq : UInt8) : Routine Unit := .call (.maskLine irq) .done
def unmaskLine (irq : UInt8) : Routine Unit := .call (.unmaskLine irq) .done
def channel (number : UInt8) (c : Channel.Call) : Routine (Channel.Reply c) :=
  .call (.channel number c) .done
def bind (irq : UInt8) (handler : Handler) : Routine (Option Handler) :=
  .call (.bind irq handler) .done
def restore (irq : UInt8) (prior : Option Handler) : Routine Unit :=
  .call (.restore irq prior) .done
def suppress : Routine Bool := .call .suppress .done
def resume (wasEnabled : Bool) : Routine Unit := .call (.resume wasEnabled) .done
def memory (c : Memory.Call) : Routine (Memory.Reply c) := .call (.memory c) .done
def log (base : UInt16) (event : Log.Event) : Routine Unit := .call (.log base event) .done

/-- Runs a routine with the interrupt flag clear and leaves the flag as it was. -/
def uninterrupted {α : Type} (routine : Routine α) : Routine α := do
  let wasEnabled ← suppress
  let result ← routine
  resume wasEnabled
  return result

end Platform

namespace Line

def create (irq : UInt8) : Routine Line := Platform.memory (.createLine irq)
def fired (line : Line) : Routine UInt32 := Platform.memory (.fired line.id)
def degraded (line : Line) : Routine Bool := Platform.memory (.degraded line.id)
def acknowledge (line : Line) : Routine Unit := Platform.memory (.acknowledge line.id)

end Line

end Diskette
