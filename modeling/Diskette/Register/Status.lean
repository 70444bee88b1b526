import Diskette.Drive

/-!
The main status register, which paces every byte on the data port, and the status registers ST0
to ST3 of a result.
-/
namespace Diskette

structure MainStatus where
  bits : UInt8
  deriving DecidableEq, Repr, Inhabited

namespace MainStatus

def dataReady (s : MainStatus) : Bool := s.bits &&& 0x80 != 0

def busy (s : MainStatus) : Bool := s.bits &&& 0x10 != 0

/-- Ready, and the next byte goes to the controller. -/
def canWrite (s : MainStatus) : Bool := s.bits &&& 0xC0 == 0x80

/-- Ready, and the next byte comes from the controller. -/
def canRead (s : MainStatus) : Bool := s.bits &&& 0xC0 == 0xC0

/-- The controller wants a payload byte on the data port. -/
def canWritePayload (s : MainStatus) : Bool := s.bits &&& 0xE0 == 0xA0

/-- The controller has a payload byte on the data port. -/
def canReadPayload (s : MainStatus) : Bool := s.bits &&& 0xE0 == 0xE0

def seeking (s : MainStatus) (drive : Drive) : Bool := s.bits &&& (1 <<< drive.index) != 0

end MainStatus

/-- How a command ended, from the two high bits of ST0. -/
inductive InterruptCode
  | normal | abnormal | invalidCommand | abnormalPolling
  deriving DecidableEq, Repr, Inhabited

namespace InterruptCode

def ofSt0 (st0 : UInt8) : InterruptCode :=
  if st0 >>> 6 = 0 then normal
  else if st0 >>> 6 = 1 then abnormal
  else if st0 >>> 6 = 2 then invalidCommand
  else abnormalPolling

end InterruptCode

/-- End of cylinder in ST1: the run went on past its last sector. -/
def endOfCylinder : UInt8 := 0x80

/-- The status registers as last reported. -/
structure ResultStatus where
  st0 : UInt8 := 0
  st1 : UInt8 := 0
  st2 : UInt8 := 0
  st3 : UInt8 := 0
  deriving DecidableEq, Repr, Inhabited

namespace ResultStatus

def toList (s : ResultStatus) : List UInt8 := [s.st0, s.st1, s.st2, s.st3]

/-- Drops the bits that have no meaning: two of ST1 and one of ST2. -/
def defined (s : ResultStatus) : ResultStatus :=
  { s with st1 := s.st1 &&& 0xB7, st2 := s.st2 &&& 0x7F }

end ResultStatus

end Diskette
