import Diskette.Interrupt.Handler
import Diskette.Memory

/-!
Sixteen interrupt lines with their masks, the processor's interrupt flag and the vector table. An
interrupt raised while it cannot be delivered stays pending.
-/
namespace Diskette

structure InterruptUnit where
  masked : UInt16 := 0xFFFF
  pending : UInt16 := 0
  /-- Ends of interrupts so far. -/
  ended : Nat := 0
  /-- The processor's flag. -/
  enabled : Bool := true
  vectors : UInt8 → Option Handler := fun _ => none
  memory : Memory := {}

namespace InterruptUnit

/-- The lines, from the one that is served first. -/
def lines : List UInt8 := (List.range 16).map UInt8.ofNat

def lineBit (irq : UInt8) : UInt16 := 1 <<< irq.toUInt16

def isMasked (u : InterruptUnit) (irq : UInt8) : Bool := u.masked &&& lineBit irq != 0

def isPending (u : InterruptUnit) (irq : UInt8) : Bool := u.pending &&& lineBit irq != 0

def mask (u : InterruptUnit) (irq : UInt8) : InterruptUnit :=
  { u with masked := u.masked ||| lineBit irq }

def unmask (u : InterruptUnit) (irq : UInt8) : InterruptUnit :=
  { u with masked := u.masked &&& ~~~lineBit irq }

def endOfInterrupt (u : InterruptUnit) : InterruptUnit := { u with ended := u.ended + 1 }

def raise (u : InterruptUnit) (irq : UInt8) : InterruptUnit :=
  { u with pending := u.pending ||| lineBit irq }

/-- Puts a handler, or none, into a slot of the vector table. -/
def setVector (u : InterruptUnit) (irq : UInt8) (handler : Option Handler) : InterruptUnit :=
  { u with vectors := fun i => if i = irq then handler else u.vectors i }

def serviceStep : (c : Service.Call) → InterruptUnit → Service.Reply c × InterruptUnit
  | .endOfInterrupt _, u => ((), u.endOfInterrupt)
  | .mask irq, u => ((), u.mask irq)
  | .countFire id, u =>
    let (stormy, memory) := u.memory.countFire id
    (stormy, { u with memory })

/-- The unit as its handlers see it. -/
def service : Machine Service InterruptUnit := ⟨serviceStep⟩

/-- Delivers one line if its interrupt is pending and nothing holds it back. -/
def deliverLine (u : InterruptUnit) (irq : UInt8) : InterruptUnit :=
  if u.enabled && u.isPending irq && !u.isMasked irq then
    ((Handler.dispatch (u.vectors irq) irq).run service
      { u with pending := u.pending &&& ~~~lineBit irq }).2
  else u

def deliver (u : InterruptUnit) : InterruptUnit := lines.foldl deliverLine u

/-- Raises and delivers a line so many times. -/
def fire (u : InterruptUnit) (irq : UInt8) : (count : Nat) → InterruptUnit
  | 0 => u
  | count + 1 => fire ((u.raise irq).deliver) irq count

def memoryStep (c : Memory.Call) (u : InterruptUnit) : Memory.Reply c × InterruptUnit :=
  let (reply, memory) := u.memory.step c
  (reply, { u with memory })

end InterruptUnit

end Diskette
