import Diskette.Pc.Cpu

/-! The two chained interrupt controllers, with lines 0 to 15 as interrupts 32 to 47. -/
namespace Diskette.Pc.InterruptController

def command1 : UInt16 := 0x20
def data1 : UInt16 := 0x21
def command2 : UInt16 := 0xA0
def data2 : UInt16 := 0xA1

/-- The interrupt of line 0. -/
def firstVector : UInt8 := 32

def dataPort (irq : UInt8) : UInt16 := if irq < 8 then data1 else data2

def maskBit (irq : UInt8) : UInt8 := 1 <<< (irq % 8)

def mask (irq : UInt8) : Code Unit := do
  let masks ← Cpu.input (dataPort irq)
  Cpu.output (dataPort irq) (masks ||| maskBit irq)

def unmask (irq : UInt8) : Code Unit := do
  let masks ← Cpu.input (dataPort irq)
  Cpu.output (dataPort irq) (masks &&& ~~~maskBit irq)

/-- Ends an interrupt, at both controllers if it came through the second one. -/
def endOfInterrupt (irq : UInt8) : Code Unit := do
  let vector := firstVector + irq
  if firstVector + 8 ≤ vector && vector < firstVector + 16 then Cpu.output command2 0x20
  if firstVector ≤ vector && vector < firstVector + 16 then Cpu.output command1 0x20

/-- The port that takes a write to no effect, for a little time between two others. -/
def waitPort : UInt16 := 0x80

def outputSlowly (port : UInt16) (value : UInt8) : Code Unit := do
  Cpu.output port value
  Cpu.output waitPort 0

/-- Sets both controllers up and leaves their masks as they were. -/
def remap : Code Unit := do
  let masks1 ← Cpu.input data1
  let masks2 ← Cpu.input data2
  outputSlowly command1 0x11
  outputSlowly command2 0x11
  outputSlowly data1 firstVector
  outputSlowly data2 (firstVector + 8)
  outputSlowly data1 4
  outputSlowly data2 2
  outputSlowly data1 1
  outputSlowly data2 1
  Cpu.output data1 masks1
  Cpu.output data2 masks2

/-- What a handler asks for, done. -/
def serve : (c : Service.Call) → Code (Service.Reply c)
  | .endOfInterrupt irq => endOfInterrupt irq
  | .mask irq => mask irq
  | .countFire id => Cpu.countFire id

end Diskette.Pc.InterruptController
