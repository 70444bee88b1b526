import Diskette.Platform
import Diskette.Register.DigitalOutput
import Diskette.Register.DataRate

/-!
The registers that cannot be read back, kept as they were last written. Every change writes one
port, and the copy changes with it.
-/
namespace Diskette

structure Shadow where
  base : UInt16
  output : DigitalOutput
  rate : DataRate := .kbps500
  deriving DecidableEq, Repr, Inhabited

namespace Shadow

def writeOutput (m : Shadow) (output : DigitalOutput) : Routine Shadow := do
  Platform.output (Port.digitalOutput m.base) output.encode
  return { m with output }

def setMotor (m : Shadow) (drive : Drive) (on : Bool) : Routine Shadow :=
  m.writeOutput (m.output.setMotor drive on)

def selectDrive (m : Shadow) (drive : Drive) : Routine Shadow :=
  m.writeOutput { m.output with drive }

def setReset (m : Shadow) (asserted : Bool) : Routine Shadow :=
  m.writeOutput { m.output with resetAsserted := asserted }

/-- Connects the DMA and interrupt lines, or cuts them off. -/
def setGate (m : Shadow) (connected : Bool) : Routine Shadow :=
  m.writeOutput { m.output with gate := connected }

def setRate (m : Shadow) (rate : DataRate) : Routine Shadow := do
  Platform.output (Port.configControl m.base) rate.encode
  return { m with rate }

/-- Writes both registers again, after a reset has wiped them. -/
def resync (m : Shadow) : Routine Unit := do
  Platform.output (Port.digitalOutput m.base) m.output.encode
  Platform.output (Port.configControl m.base) m.rate.encode

end Shadow

end Diskette
