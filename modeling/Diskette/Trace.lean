import Diskette.Platform

/-!
Traces of what is done to a machine. A full trace has each access on its own; a brief one leaves out
the reads and runs together what repeats.
-/
namespace Diskette

inductive Trace.Detail
  | none | brief | full
  deriving DecidableEq, Repr, Inhabited

inductive Trace.Event
  | input (port : UInt16) (byte : UInt8)
  | output (port : UInt16) (bytes : Array UInt8)
  /-- Writes to the command port of the timer, one after the other. -/
  | latch (count : Nat)
  | delay (ms : Nat)
  | note (text : String)
  deriving DecidableEq, Repr, Inhabited

structure Trace where
  detail : Trace.Detail := .brief
  /-- The latest first. -/
  events : List Trace.Event := []
  reads : Nat := 0
  deriving Inhabited

namespace Trace

def timerCommandPort : UInt16 := 0x43

def Event.text : Event → String
  | input port byte => "in " ++ Hex.digits port.toNat ++ " " ++ Hex.byte byte
  | output port bytes => "out " ++ Hex.digits port.toNat ++ " " ++ Hex.bytes bytes.toList
  | latch count => s!"latch {count}"
  | delay ms => s!"delay {ms}"
  | note text => text

/-- Adds an event to those before it, as a brief trace does. -/
def merge (events : List Event) (e : Event) : List Event :=
  match e, events with
  | .input _ _, _ => events
  | .output port bytes, _ =>
    if port = timerCommandPort then
      match events with
      | .latch n :: rest => .latch (n + 1) :: rest
      | _ => .latch 1 :: events
    else
      match events with
      | .output before earlier :: rest =>
        if before = port then .output port (earlier ++ bytes) :: rest else e :: events
      | _ => e :: events
  | .delay ms, .delay earlier :: rest => .delay (earlier + ms) :: rest
  | _, _ => e :: events

def add (t : Trace) (e : Event) : Trace :=
  let reads := match e with
    | .input _ _ => t.reads + 1
    | _ => t.reads
  match t.detail with
  | .none => { t with reads }
  | .brief => { t with reads, events := merge t.events e }
  | .full => { t with reads, events := e :: t.events }

/-- What has been traced, in order, and the trace without it. -/
def take (t : Trace) : List String × Nat × Trace :=
  (t.events.reverse.map Event.text, t.reads, { t with events := [], reads := 0 })

def directionText : Direction → String
  | .toMemory => "to_memory"
  | .fromMemory => "from_memory"

def modeText (mode : ChannelMode) : String :=
  directionText mode.direction ++ s!" single={mode.single} auto={mode.autoInit}"

def channelText : (c : Channel.Call) → Channel.Reply c → String
  | .mask, _ => "mask"
  | .unmask, _ => "unmask"
  | .setMode mode, _ => "mode " ++ modeText mode
  | .loadCount bytes, _ => s!"count {bytes.toNat}"
  | .loadAddress address, _ => s!"address {address.toNat}"
  | .remaining, n => s!"remaining={n.toNat}"
  | .terminalCount, on => s!"tc={on}"

/-- The event of a call; memory and the log leave none. -/
def eventOf : (c : Platform.Call) → Platform.Reply c → Option Event
  | .input port, byte => some (.input port byte)
  | .output port value, _ => some (.output port #[value])
  | .delay ms, _ => some (.delay ms.toNat)
  | .maskLine irq, _ => some (.note s!"mask {irq.toNat}")
  | .unmaskLine irq, _ => some (.note s!"unmask {irq.toNat}")
  | .endOfInterrupt irq, _ => some (.note s!"eoi {irq.toNat}")
  | .channel number c, reply => some (.note (s!"dma {number.toNat} " ++ channelText c reply))
  | .bind irq _, _ => some (.note s!"bind {irq.toNat}")
  | .restore irq prior, _ =>
    some (.note (s!"restore {irq.toNat} " ++ (if prior.isSome then "some" else "none")))
  | .suppress, _ => some (.note "cli")
  | .resume wasEnabled, _ => some (.note (if wasEnabled then "sti" else "keep"))
  | .memory _, _ => none
  | .log _ _, _ => none

end Trace

end Diskette
