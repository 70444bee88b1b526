import Diskette.ChannelTransfer
import Diskette.Controller.Basic

/-!
The two ways a payload can take: through a DMA channel, with an interrupt at the end, or through the
data port. The first one holds the interrupt line, which is given back when the driver leaves it.
-/
namespace Diskette.Operation

/-- The handler that the driver's own has displaced, which is forgotten with that. -/
def takePrior : Operation (Option Handler) :=
  modifyGet fun c => (c.prior, { c with prior := none })

/-- Puts back the handler that the driver's own has displaced. -/
def unbind : Operation Unit := do
  match (← get).line, (← get).hooked with
  | some line, true =>
    let prior ← takePrior
    Platform.uninterrupted (Platform.restore line.irq prior)
    modify fun c => { c with hooked := false }
  | _, _ => return ()

def maskIfHooked : Operation Unit := do
  match (← get).line, (← get).hooked with
  | some line, true => Platform.maskLine line.irq
  | _, _ => return ()

def closeGate : Operation Unit := do
  if (← get).shadow.output.gate then shadowed (·.setGate false)

def logPolled : Operation Unit := do
  if (← get).path = .channel then log .polled

/-- Leaves the DMA path: masks the line, closes the gate and puts the old handler back. -/
def disableDma : Operation Unit := do
  maskIfHooked
  closeGate
  unbind
  logPolled
  modify fun c => { c with path := .port }

/-- Installs the driver's handler on a line, with the line masked meanwhile. -/
def hookLine (line : Line) : Operation Unit := do
  Platform.maskLine line.irq
  shadowed (·.setGate true)
  let prior ← Platform.uninterrupted (Platform.bind line.irq (.counting line))
  modify fun c => { c with hooked := true, prior }
  line.acknowledge
  Platform.unmaskLine line.irq
  modify fun c => { c with path := .channel }
  log (.interruptDriven line.irq)

/-- Takes the DMA path, which needs a channel and a line that can be trusted. -/
def enableDma : Attempt Unit := do
  let c ← get
  if c.channel.isNone then throw (.invalidParameters .noDmaChannel)
  match c.line with
  | none => throw (.invalidParameters .noIrqLine)
  | some line =>
    if ← line.degraded then throw (.interruptStorm line.irq)
    unless c.path = .channel do hookLine line

/-- Leaves the DMA path on account of a storm, if it is taken. -/
def abandonLine (line : Line) : Operation Unit := do
  if (← get).holdsLine then
    log (.storm line.irq)
    disableDma

/-- Leaves the DMA path if a storm has degraded the line, and gives the notice of it unless a
report has carried that before. -/
def noticeStorm : Operation (Option Failure) := do
  match (← get).line with
  | none => return none
  | some line =>
    if ← line.degraded then
      abandonLine line
      return if (← get).stormReported then none else some (.interruptStorm line.irq)
    else
      return none

def maskChannel : Operation Unit := do
  match (← get).channel with
  | some channel => Platform.channel channel .mask
  | none => return ()

/-- Leaves the machine safe: motors off, gate closed, out of reset, the old handler back. -/
def release : Operation Unit := do
  shadowed fun s => s.writeOutput { drive := s.output.drive }
  maskIfHooked
  unbind
  maskChannel
  modify fun c => { c with path := .port }
  log .released

end Diskette.Operation

namespace Diskette

/-- The handler of a controller is installed on a line only, and has displaced one only as long as it is installed. -/
structure Controller.HookSound (c : Controller) : Prop where
  lined : c.hooked → c.line.isSome
  cleared : c.hooked = false → c.prior = none

/-- Where a line is missing, the handler is not installed. -/
theorem Controller.hooked_eq_false {c : Controller} (hlined : c.hooked → c.line.isSome)
    (hnone : ∀ line, c.line = some line → c.hooked = true → False) : c.hooked = false := by
  refine Bool.eq_false_iff.mpr fun hhooked => ?_
  obtain ⟨line, hline⟩ := Option.isSome_iff_exists.mp (hlined hhooked)
  exact hnone line hline hhooked

end Diskette
