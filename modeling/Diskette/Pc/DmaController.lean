import Diskette.Channel
import Diskette.Pc.Cpu

/-! The DMA controller of the byte-wide channels. -/
namespace Diskette.Pc.DmaController

def statusPort : UInt16 := 0x08
def maskPort : UInt16 := 0x0A
def modePort : UInt16 := 0x0B
/-- A write here makes the next byte of an address or a count the low one. -/
def clearPort : UInt16 := 0x0C

/-- The two bits that name a channel. -/
def select (channel : UInt8) : UInt8 := channel &&& 3

def addressPort (channel : UInt8) : UInt16 := (select channel).toUInt16 * 2

def countPort (channel : UInt8) : UInt16 := addressPort channel + 1

/-- Where the upper byte of an address goes. -/
def pagePort (channel : UInt8) : UInt16 :=
  if select channel = 0 then 0x87
  else if select channel = 1 then 0x83
  else if select channel = 2 then 0x81
  else 0x82

def modeBits (channel : UInt8) (mode : ChannelMode) : UInt8 :=
  select channel |||
    (match mode.direction with | .toMemory => 0x04 | .fromMemory => 0x08) |||
    (if mode.autoInit then 0x10 else 0) |||
    (if mode.single then 0x40 else 0x80)

def outputWord (port : UInt16) (value : UInt16) : Code Unit := do
  Cpu.output clearPort 0xFF
  Cpu.output port value.toUInt8
  Cpu.output port (value >>> 8).toUInt8

/-- The register holds one less than the number of bytes, and none for zero. -/
def loadCount (channel : UInt8) (bytes : UInt32) : Code Unit :=
  outputWord (countPort channel) (if bytes = 0 then 0 else (bytes - 1).toUInt16)

def loadAddress (channel : UInt8) (address : UInt32) : Code Unit := do
  outputWord (addressPort channel) address.toUInt16
  Cpu.output (pagePort channel) (address >>> 16).toUInt8

/-- The bytes to come. A channel that is through reads as one less than zero. -/
def remaining (channel : UInt8) : Code UInt32 := do
  Cpu.output clearPort 0xFF
  let low ← Cpu.input (countPort channel)
  let high ← Cpu.input (countPort channel)
  return (((high.toUInt32 <<< 8) ||| low.toUInt32) + 1) &&& 0xFFFF

def terminalCount (channel : UInt8) : Code Bool := do
  return (← Cpu.input statusPort) &&& (1 <<< select channel) != 0

/-- A call on a channel, done. -/
def serve (channel : UInt8) : (c : Channel.Call) → Code (Channel.Reply c)
  | .mask => Cpu.output maskPort (select channel ||| 0x04)
  | .unmask => Cpu.output maskPort (select channel)
  | .setMode mode => Cpu.output modePort (modeBits channel mode)
  | .loadCount bytes => loadCount channel bytes
  | .loadAddress address => loadAddress channel address
  | .remaining => remaining channel
  | .terminalCount => terminalCount channel

end Diskette.Pc.DmaController
