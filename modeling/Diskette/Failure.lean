import Diskette.Text.Hex

/-! Why a command was refused, and why an accepted one did not complete. -/
namespace Diskette

/-- What is wrong with a command, a transfer or a setting. -/
inductive Rejection
  | missingBuffer
  | unexpectedBuffer
  | carriesNoData
  | wrongDirection
  | wrongLength
  | bufferTooShort
  | exceedsBounceBuffer
  | headOutOfRange
  | sectorZero
  | emptyRun
  | sizeCodeOutOfRange
  | runPastLastSector
  | relativeSeekTooFar
  | timingOutOfRange
  | noDmaChannel
  | noIrqLine
  deriving DecidableEq, Repr, Inhabited

def Rejection.message : Rejection → String
  | missingBuffer => "data command without a buffer"
  | unexpectedBuffer => "buffer given to a command without data"
  | carriesNoData => "command carries no data"
  | wrongDirection => "buffer direction does not match command"
  | wrongLength => "length is not count * sector size"
  | bufferTooShort => "buffer shorter than length"
  | exceedsBounceBuffer => "length exceeds DMA buffer"
  | headOutOfRange => "head must be 0 or 1"
  | sectorZero => "sectors are numbered from 1"
  | emptyRun => "sector count is zero"
  | sizeCodeOutOfRange => "size code above 7"
  | runPastLastSector => "sector run past sector 255"
  | relativeSeekTooFar => "relative seek beyond 255 cylinders"
  | timingOutOfRange => "specify timing out of range"
  | noDmaChannel => "no DMA channel"
  | noIrqLine => "no IRQ line"

inductive Failure
  /-- The controller did not take a command byte; `written` of them had gone out. -/
  | writeTimeout (written total : Nat)
  | resultTimeout
  | shortTransfer (expected actual : Nat)
  | abnormalTermination (st0 st1 st2 : UInt8)
  /-- The interrupt line fired so often without cause that it is no longer trusted. -/
  | interruptStorm (irq : UInt8)
  | invalidParameters (cause : Rejection)
  deriving DecidableEq, Repr, Inhabited

namespace Failure

def message : Failure → String
  | writeTimeout written total => s!"controller not ready for command byte {written} of {total}"
  | resultTimeout => "controller did not produce a result"
  | shortTransfer expected actual => s!"short transfer: {actual} of {expected} bytes"
  | abnormalTermination st0 st1 st2 =>
    "abnormal termination (ST0=" ++ Hex.taggedByte st0 ++ " ST1=" ++ Hex.taggedByte st1 ++
      " ST2=" ++ Hex.taggedByte st2 ++ ")"
  | interruptStorm irq => s!"interrupt storm on IRQ {irq.toNat}, falling back to polling"
  | invalidParameters cause => "invalid parameters: " ++ cause.message

/-- Whether the controller was reset because of it. -/
def causedReset : Failure → Bool
  | invalidParameters _ | interruptStorm _ => false
  | _ => true

end Failure

end Diskette
