import Diskette.Platform

/-! One transfer through one DMA channel: how it is set up, and how much of it took place. -/
namespace Diskette.Channel

/-- Programs a channel for one transfer. Asking for the terminal count last drops one that an
earlier transfer has left. -/
def setUp (channel : UInt8) (direction : Direction) (address : UInt32) (length : Nat) :
    Routine Unit := do
  Platform.channel channel .mask
  Platform.channel channel (.setMode (.oneShot direction))
  Platform.channel channel (.loadCount (UInt32.ofNat length))
  Platform.channel channel (.loadAddress address)
  Platform.channel channel .unmask
  let _ ← Platform.channel channel .terminalCount

/-- The bytes that moved. At terminal count all have, whatever the count register says: some
channels have reloaded it by then. -/
def moved (channel : UInt8) (requested : Nat) : Routine Nat := do
  let remaining ← Platform.channel channel .remaining
  if ← Platform.channel channel .terminalCount then return requested
  else return requested - min remaining.toNat requested

end Diskette.Channel
