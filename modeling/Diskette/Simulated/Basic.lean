import Diskette.Channel
import Diskette.Machine.InterruptUnit
import Diskette.Register.Port
import Diskette.Simulated.Disk

/-!
A simulated machine: a floppy disk controller with its disks, four DMA channels, an interrupt unit
and a clock that only delays move. Faults can be switched on.
-/
namespace Diskette.Simulated

structure Faults where
  /-- Takes no more command bytes once it has so many. -/
  commandLimit : Option Nat := none
  /-- Never gets to the result. -/
  withholdResults : Bool := false
  /-- Moves no more bytes than these by DMA, and reports nothing of it. -/
  channelLimit : Option Nat := none
  /-- Stops a payload on the data port after so many bytes. -/
  portLimit : Option Nat := none
  /-- ST0 to ST2 of the next data command. -/
  verdict : Option (UInt8 × UInt8 × UInt8) := none
  /-- Raises no interrupt. -/
  silent : Bool := false
  /-- Channels reload their count when it runs out. -/
  reloadCount : Bool := false
  deriving DecidableEq, Repr, Inhabited

inductive Stage
  | command
  /-- A payload that is read from the data port: what is left of it, and how much is gone. -/
  | reading (rest : List UInt8) (gone : Nat) (extent : Extent)
  /-- A payload that is written to the data port. -/
  | writing (taken : Array UInt8) (extent : Extent)
  | result
  /-- Waits for a DMA request that nobody serves. -/
  | stuck
  deriving DecidableEq, Repr, Inhabited

structure Fdc where
  base : UInt16 := 0x3F0
  irq : UInt8 := 6
  present : Bool := true
  ps2 : Bool := false
  atClass : Bool := true
  outputReadable : Bool := false
  output : UInt8 := 0x0C
  rate : UInt8 := 0
  nonDma : Bool := false
  cylinders : Drive → UInt8 := fun _ => 0
  /-- ST0 and cylinder of each interrupt that is yet to be sensed. -/
  pending : List (UInt8 × UInt8) := []
  /-- The first bytes of the commands taken, the latest first. -/
  commands : List UInt8 := []
  resets : Nat := 0
  stage : Stage := .command
  /-- Bytes of a command that is not whole yet. -/
  partialCommand : List UInt8 := []
  /-- Result bytes to come. -/
  results : List UInt8 := []
  disk : Disk := .empty

namespace Fdc

def inReset (f : Fdc) : Bool := f.output &&& 0x04 == 0

def gateOpen (f : Fdc) : Bool := f.output &&& 0x08 != 0

def idle (f : Fdc) : Bool := f.stage == .command && f.partialCommand.isEmpty && !f.inReset

def status (f : Fdc) (faults : Faults) : UInt8 :=
  if f.inReset then 0x00
  else match f.stage with
    | .command =>
      if faults.commandLimit = some f.partialCommand.length then 0x10
      else if f.partialCommand.isEmpty then 0x80
      else 0x90
    | .reading _ gone _ => if faults.portLimit = some gone then 0x30 else 0xF0
    | .writing taken _ => if faults.portLimit = some taken.size then 0x30 else 0xB0
    | .result => if faults.withholdResults then 0x10 else 0xD0
    | .stuck => 0x10

/-- Has a result to give, or goes back to commands if it is empty. -/
def answer (f : Fdc) (bytes : List UInt8) : Fdc :=
  { f with results := bytes, stage := if bytes.isEmpty then .command else .result }

def moveHead (f : Fdc) (drive : Drive) (cylinder : UInt8) : Fdc :=
  { f with cylinders := fun other => if other = drive then cylinder else f.cylinders other }

end Fdc

structure ChannelState where
  masked : Bool := true
  mode : Option ChannelMode := none
  count : UInt32 := 0
  address : UInt32 := 0
  remaining : UInt32 := 0
  terminal : Bool := false
  deriving DecidableEq, Repr, Inhabited

namespace ChannelState

def step (ch : ChannelState) (reload : Bool) :
    (c : Channel.Call) → Channel.Reply c × ChannelState
  | .mask => ((), { ch with masked := true })
  | .unmask => ((), { ch with masked := false })
  | .setMode mode => ((), { ch with mode := some mode })
  | .loadCount bytes => ((), { ch with count := bytes, remaining := bytes })
  | .loadAddress address => ((), { ch with address })
  | .remaining => (if ch.terminal && reload then ch.count else ch.remaining, ch)
  | .terminalCount => (ch.terminal, { ch with terminal := false })

/-- Whether the channel waits for the device to move bytes this way. -/
def readyFor (ch : ChannelState) (direction : Direction) : Bool :=
  !ch.masked && ch.mode.map (·.direction) == some direction

end ChannelState

/-- The channel the controller is wired to. -/
def fdcChannel : UInt8 := 2

end Simulated

open Simulated in
structure Simulated where
  fdc : Fdc := {}
  channels : UInt8 → ChannelState := fun _ => {}
  interrupts : InterruptUnit := { memory := { bounce := Array.replicate 4096 0 } }
  faults : Faults := {}
  /-- Milliseconds of delay so far. -/
  now : Nat := 0
  /-- Accesses to the hardware of any kind so far. -/
  accesses : Nat := 0
  /-- Port writes, the latest first. -/
  writes : List (UInt16 × UInt8) := []

namespace Simulated

def countAccess (m : Simulated) : Simulated := { m with accesses := m.accesses + 1 }

/-- A change of the interrupt unit. -/
def unit (m : Simulated) (f : InterruptUnit → InterruptUnit) : Simulated :=
  { m with interrupts := f m.interrupts }

def setChannel (m : Simulated) (number : UInt8) (ch : ChannelState) : Simulated :=
  { m with channels := fun n => if n = number then ch else m.channels n }

/-- The last byte written to the digital output register of a controller at a base address; the simulated one is
meant if none is given. -/
def lastOutput (m : Simulated) (base : UInt16 := m.fdc.base) : Option UInt8 :=
  (m.writes.find? fun w => w.1 == Port.digitalOutput base).map (·.2)

/-- Leaves a result behind that someone else has half read. -/
def abandonResult (m : Simulated) : Simulated :=
  { m with fdc := { m.fdc with results := [0xC0, 0x00], stage := .result } }

end Simulated

end Diskette
