import Diskette.Command.Basic

/-! The calls that program one channel of a DMA controller. Counts and addresses are in bytes. -/
namespace Diskette

structure ChannelMode where
  direction : Direction
  /-- One byte for each request of the device. -/
  single : Bool
  /-- Start over when the count runs out. -/
  autoInit : Bool
  deriving DecidableEq, Repr, Inhabited

def ChannelMode.oneShot (direction : Direction) : ChannelMode := ⟨direction, true, false⟩

inductive Channel.Call
  | mask
  | unmask
  | setMode (mode : ChannelMode)
  | loadCount (bytes : UInt32)
  | loadAddress (address : UInt32)
  /-- The bytes not yet moved, as the count register has them. -/
  | remaining
  /-- Whether the count ran out. Asking clears the answer. -/
  | terminalCount
  deriving DecidableEq, Repr

abbrev Channel.Reply : Channel.Call → Type
  | .remaining => UInt32
  | .terminalCount => Bool
  | _ => Unit

end Diskette
