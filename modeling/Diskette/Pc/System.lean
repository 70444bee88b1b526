import Diskette.Pc.Assembly
import Diskette.Pc.Emulated

/-! A PC on emulated hardware. -/
namespace Diskette.Pc

structure System where
  assembly : Assembly
  hardware : Emulated

namespace System

/-- Runs code on the hardware. -/
def run {α : Type} (s : System) (code : Code α) : α × System :=
  let (a, hardware) := code.run Emulated.machine s.hardware
  (a, { s with hardware })

/-- An interrupt from outside. -/
def raise (s : System) (irq : UInt8) : System :=
  { s with hardware := (s.hardware.raise irq).settle }

def machine : Machine Platform System := ⟨fun c s => s.run (s.assembly.serve c)⟩

end System

end Diskette.Pc
