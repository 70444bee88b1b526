import Diskette.Interrupt.Counter
import Diskette.Program

/-!
What runs when an interrupt line fires. A handler has the interrupt controller and its line's
counters to call on, and nothing else.
-/
namespace Diskette

inductive Handler
  /-- Ends the interrupt of a fixed line and does no more. -/
  | acknowledging (irq : UInt8)
  /-- Counts the fires of the driver's line. -/
  | counting (line : Line)
  deriving DecidableEq, Repr, Inhabited

inductive Service.Call
  | endOfInterrupt (irq : UInt8)
  | mask (irq : UInt8)
  | countFire (id : Nat)
  deriving DecidableEq, Repr

abbrev Service.Reply : Service.Call → Type
  | .endOfInterrupt _ => Unit
  | .mask _ => Unit
  | .countFire _ => Bool

/-- What a handler may call on. -/
abbrev Service : Interface := ⟨Service.Call, Service.Reply⟩

namespace Service

def endOfInterrupt (irq : UInt8) : Program Service Unit := .call (.endOfInterrupt irq) .done

def mask (irq : UInt8) : Program Service Unit := .call (.mask irq) .done

/-- Whether the fire was the one that degrades the line. -/
def countFire (id : Nat) : Program Service Bool := .call (.countFire id) .done

end Service

namespace Handler

/-- The fire that degrades the line masks it. -/
def serve : Handler → Program Service Unit
  | acknowledging irq => Service.endOfInterrupt irq
  | counting line => do
    Service.endOfInterrupt line.irq
    if ← Service.countFire line.id then Service.mask line.irq

/-- What an interrupt on a line does: its handler, or no more than its end when none is bound. -/
def dispatch (slot : Option Handler) (irq : UInt8) : Program Service Unit :=
  match slot with
  | some handler => handler.serve
  | none => Service.endOfInterrupt irq

end Handler

end Diskette
