import Diskette.Log.Console
import Diskette.Pc.Cpu

/-! Text on the first serial port, and the log that goes there. -/
namespace Diskette.Pc.SerialPort

def dataPort : UInt16 := 0x3F8
def interruptPort : UInt16 := 0x3F9
def fifoPort : UInt16 := 0x3FA
def linePort : UInt16 := 0x3FB
def modemPort : UInt16 := 0x3FC
def statusPort : UInt16 := 0x3FD

/-- 115200 baud, eight bits without parity, buffers on, interrupts off. -/
def setUp : Code Unit := do
  Cpu.output interruptPort 0x00
  Cpu.output linePort 0x80
  Cpu.output dataPort 0x01
  Cpu.output interruptPort 0x00
  Cpu.output linePort 0x03
  Cpu.output fifoPort 0xC7
  Cpu.output modemPort 0x0B

/-- Looks at the line status until the transmitter is empty, so many times at the most. -/
def waitEmpty : (looks : Nat) → Code Unit
  | 0 => return ()
  | looks + 1 => do
    if (← Cpu.input statusPort) &&& 0x20 = 0 then waitEmpty looks

/-- Looks before a byte goes out all the same. -/
def transmitLooks : Nat := 100000

/-- Nothing is written to a port that has not been set up. -/
def writeByte (initialized : Bool) (b : UInt8) : Code Unit := do
  if initialized then
    waitEmpty transmitLooks
    Cpu.output dataPort b

/-- Writes one piece of a text, with a carriage return before each line feed. -/
def writePiece (initialized : Bool) (piece : String) : Code Unit :=
  (Utf8.bytes piece).forM fun b => do
    if b = 10 then writeByte initialized 13
    writeByte initialized b

/-- Writes text that comes in pieces, with the flag clear. -/
def printPieces (initialized : Bool) (pieces : List String) : Code Unit := do
  let wasEnabled ← Cpu.readFlag
  if wasEnabled then Cpu.clearFlag
  pieces.forM (writePiece initialized)
  Cpu.resume wasEnabled

def print (text : String) : Code Unit := printPieces true [text]

def log (max : Log.Threshold) (r : Log.Record) : Code Unit := do
  if max.admits r.level then printPieces true (Log.linePieces r.level r.target [r.text])

/-- The port and the log before it, from the start of the machine on. -/
structure Terminal where
  initialized : Bool := false
  max : Log.Threshold := none
  deriving DecidableEq, Repr, Inhabited

/-- Something for the terminal to do. Text is in the pieces that its formatting makes. -/
inductive Entry
  | limit (max : Log.Threshold)
  | record (level : Log.Level) (target : String) (text : List String)
  | plain (pieces : List String)
  deriving DecidableEq, Repr

namespace Terminal

def setUp (t : Terminal) : Code Terminal := do
  SerialPort.setUp
  return { t with initialized := true }

def take (t : Terminal) : Entry → Code Terminal
  | .limit max => return { t with max }
  | .record level target text => do
    if t.max.admits level then printPieces t.initialized (Log.linePieces level target text)
    return t
  | .plain pieces => do
    printPieces t.initialized pieces
    return t

def takeAll (t : Terminal) : List Entry → Code Terminal
  | [] => return t
  | e :: rest => do (← t.take e).takeAll rest

end Terminal

end Diskette.Pc.SerialPort
