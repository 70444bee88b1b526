import Diskette.Pc.InterruptController

/-! The table of handlers for the sixteen lines. Slots change with the interrupt flag clear. -/
namespace Diskette.Pc.VectorTable

def lines : UInt8 := 16

/-- What an interrupt does: the handler of its line, or no more than its end; nothing for a line
that does not exist. -/
def dispatch (irq : UInt8) : Code Unit := do
  if irq < lines then
    let slot ← Cpu.loadVector irq
    (Handler.dispatch slot irq).expand InterruptController.serve

def bind (irq : UInt8) (handler : Handler) : Code (Option Handler) := do
  if irq < lines then
    Cpu.uninterrupted do
      let prior ← Cpu.loadVector irq
      Cpu.storeVector irq (some handler)
      return prior
  else return none

def restore (irq : UInt8) (prior : Option Handler) : Code Unit := do
  if irq < lines then Cpu.uninterrupted (Cpu.storeVector irq prior)

end Diskette.Pc.VectorTable
