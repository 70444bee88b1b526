import Diskette.Pc.DmaController
import Diskette.Pc.SerialPort
import Diskette.Pc.Timer
import Diskette.Pc.VectorTable
import Diskette.Platform

/-! A PC as a platform: the code for each call of the driver. -/
namespace Diskette.Pc

structure Assembly where
  timer : Timer
  logLevel : Log.Threshold
  deriving Repr, Inhabited

/-- The code that a call of the driver comes to. -/
def Assembly.serve (a : Assembly) : (c : Platform.Call) → Code (Platform.Reply c)
  | .input port => Cpu.input port
  | .output port value => Cpu.output port value
  | .delay ms => a.timer.delay ms
  | .maskLine irq => InterruptController.mask irq
  | .unmaskLine irq => InterruptController.unmask irq
  | .endOfInterrupt irq => InterruptController.endOfInterrupt irq
  | .channel number c => DmaController.serve number c
  | .bind irq handler => VectorTable.bind irq handler
  | .restore irq prior => VectorTable.restore irq prior
  | .suppress => Cpu.suppress
  | .resume wasEnabled => Cpu.resume wasEnabled
  | .memory c => Cpu.memory c
  | .log base event => SerialPort.log a.logLevel (event.record base)

end Diskette.Pc
