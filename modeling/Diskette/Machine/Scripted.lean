import Diskette.Machine.InterruptUnit
import Diskette.Machine.Script
import Diskette.Platform

/-! A platform around a scripted controller. Its DMA channels move nothing and answer from lists. -/
namespace Diskette

structure Scripted where
  script : Script := {}
  interrupts : InterruptUnit := {}
  /-- Milliseconds of delay so far. -/
  now : Nat := 0
  remaining : List UInt32 := []
  terminal : List Bool := []

namespace Scripted

/-- Raises the line of a phase that was entered, and delivers what is pending. -/
def settle (m : Scripted) (raised : Option UInt8) (script : Script) : Scripted :=
  let interrupts := match raised with
    | some irq => m.interrupts.raise irq
    | none => m.interrupts
  { m with script, interrupts := interrupts.deliver }

def disturb (m : Scripted) (irq : UInt8) (count : Nat) : Scripted :=
  { m with interrupts := m.interrupts.fire irq count }

def unit (m : Scripted) (f : InterruptUnit → InterruptUnit) : Scripted :=
  { m with interrupts := f m.interrupts }

def channelStep (m : Scripted) : (c : Channel.Call) → Channel.Reply c × Scripted
  | .remaining =>
    let (n, remaining) := nextAnswer m.remaining 0
    (n, { m with remaining })
  | .terminalCount =>
    let (on, terminal) := nextAnswer m.terminal false
    (on, { m with terminal })
  | .mask | .unmask | .setMode _ | .loadCount _ | .loadAddress _ => ((), m)

def step (m : Scripted) : (c : Platform.Call) → Platform.Reply c × Scripted
  | .input port =>
    let (byte, raised, script) := m.script.read port
    (byte, m.settle raised script)
  | .output port value =>
    let (raised, script) := m.script.write port value
    ((), m.settle raised script)
  | .delay ms =>
    let (raised, script) := m.script.elapse ms.toNat
    ((), { m with now := m.now + ms.toNat }.settle raised script)
  | .maskLine irq => ((), m.unit (·.mask irq))
  | .unmaskLine irq => ((), m.unit fun u => (u.unmask irq).deliver)
  | .endOfInterrupt _ => ((), m.unit (·.endOfInterrupt))
  | .channel _ c => m.channelStep c
  | .bind irq handler =>
    (m.interrupts.vectors irq, m.unit (·.setVector irq (some handler)))
  | .restore irq prior => ((), m.unit (·.setVector irq prior))
  | .suppress => (m.interrupts.enabled, m.unit fun u => { u with enabled := false })
  | .resume wasEnabled =>
    ((), if wasEnabled then m.unit fun u => { u with enabled := true }.deliver else m)
  | .memory c =>
    let (reply, interrupts) := m.interrupts.memoryStep c
    (reply, { m with interrupts })
  | .log _ _ => ((), m)

def machine : Machine Platform Scripted := ⟨fun c m => m.step c⟩

end Scripted

end Diskette
