import Diskette.Interrupt.Handler
import Diskette.Memory

/-!
What a processor can do: port instructions, the interrupt flag, and the memory that the vector table
and the driver's shared data lie in.
-/
namespace Diskette.Pc

inductive Cpu.Call
  | input (port : UInt16)
  | output (port : UInt16) (value : UInt8)
  | clearFlag
  | setFlag
  | readFlag
  /-- The handler in a slot of the vector table. -/
  | loadVector (irq : UInt8)
  | storeVector (irq : UInt8) (handler : Option Handler)
  | countFire (id : Nat)
  | memory (c : Memory.Call)
  deriving DecidableEq, Repr

abbrev Cpu.Reply : Cpu.Call → Type
  | .input _ => UInt8
  | .readFlag => Bool
  | .loadVector _ => Option Handler
  | .countFire _ => Bool
  | .memory c => Memory.Reply c
  | _ => Unit

abbrev Cpu : Interface := ⟨Cpu.Call, Cpu.Reply⟩

/-- A program for the processor. -/
abbrev Code := Program Cpu

namespace Cpu

def input (port : UInt16) : Code UInt8 := .call (.input port) .done
def output (port : UInt16) (value : UInt8) : Code Unit := .call (.output port value) .done
def clearFlag : Code Unit := .call .clearFlag .done
def setFlag : Code Unit := .call .setFlag .done
def readFlag : Code Bool := .call .readFlag .done
def loadVector (irq : UInt8) : Code (Option Handler) := .call (.loadVector irq) .done
def storeVector (irq : UInt8) (handler : Option Handler) : Code Unit :=
  .call (.storeVector irq handler) .done
def countFire (id : Nat) : Code Bool := .call (.countFire id) .done
def memory (c : Memory.Call) : Code (Memory.Reply c) := .call (.memory c) .done

/-- Clears the interrupt flag and tells whether it was set. -/
def suppress : Code Bool := do
  let wasEnabled ← readFlag
  clearFlag
  return wasEnabled

def resume (wasEnabled : Bool) : Code Unit := do
  if wasEnabled then setFlag

/-- Runs code with the flag clear and sets it again if it was set. -/
def uninterrupted {α : Type} (code : Code α) : Code α := do
  let wasEnabled ← suppress
  let result ← code
  resume wasEnabled
  return result

end Cpu

end Diskette.Pc
