import Diskette.Platform
import Diskette.Simulated.Behavior

/-! The simulated machine as a platform. -/
namespace Diskette.Simulated

/-- Where a port lies in the window of the controller, if it does and there is one. -/
def window (m : Simulated) (port : UInt16) : Option Nat :=
  if m.fdc.present && m.fdc.base.toNat ≤ port.toNat && port.toNat < m.fdc.base.toNat + 8 then
    some (port.toNat - m.fdc.base.toNat)
  else none

def input (m : Simulated) (port : UInt16) : UInt8 × Simulated :=
  let m := m.countAccess
  match m.window port with
  | some 0 | some 1 => (if m.fdc.ps2 then 0x00 else 0xFF, m)
  | some 2 => (if m.fdc.outputReadable then m.fdc.output else 0xFF, m)
  | some 4 => (m.fdc.status m.faults, m)
  | some 5 => m.giveByte
  | some 7 => (if m.fdc.atClass || m.fdc.ps2 then 0x00 else 0xFF, m)
  | _ => (0xFF, m)

def output (m : Simulated) (port : UInt16) (value : UInt8) : Simulated :=
  let m := { m.countAccess with writes := (port, value) :: m.writes }
  match m.window port with
  | some 2 => m.writeOutput value
  | some 5 => m.acceptByte value
  | some 7 => { m with fdc := { m.fdc with rate := value } }
  | _ => m

def channelStep (m : Simulated) (number : UInt8) (c : Channel.Call) :
    Channel.Reply c × Simulated :=
  let (reply, ch) := (m.channels number).step m.faults.reloadCount c
  (reply, m.countAccess.setChannel number ch)

def step (m : Simulated) : (c : Platform.Call) → Platform.Reply c × Simulated
  | .input port => m.input port
  | .output port value => ((), m.output port value)
  | .delay ms => ((), { m with now := m.now + ms.toNat })
  | .maskLine irq => ((), m.unit (·.mask irq))
  | .unmaskLine irq => ((), m.unit fun u => (u.unmask irq).deliver)
  | .endOfInterrupt _ => ((), m.unit (·.endOfInterrupt))
  | .channel number c => m.channelStep number c
  | .bind irq handler =>
    (m.interrupts.vectors irq, m.countAccess.unit (·.setVector irq (some handler)))
  | .restore irq prior => ((), m.countAccess.unit (·.setVector irq prior))
  | .suppress => (m.interrupts.enabled, m.unit fun u => { u with enabled := false })
  | .resume wasEnabled =>
    ((), if wasEnabled then m.unit fun u => { u with enabled := true }.deliver else m)
  | .memory c =>
    let (reply, interrupts) := m.interrupts.memoryStep c
    (reply, { m with interrupts })
  | .log _ _ => ((), m)

def machine : Machine Platform Simulated := ⟨fun c m => m.step c⟩

end Diskette.Simulated
