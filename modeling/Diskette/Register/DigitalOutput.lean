import Diskette.Drive

/-!
The digital output register: motors in bits 7 to 4, the DMA and interrupt gate in bit 3, the reset
line (low while asserted) in bit 2 and the selected drive in bits 1 and 0.
-/
namespace Diskette

/-- A register bit that stands when the condition does. -/
def bitIf (on : Bool) (bit : UInt8) : UInt8 := if on then bit else 0

structure Motors where
  a : Bool := false
  b : Bool := false
  c : Bool := false
  d : Bool := false
  deriving DecidableEq, Repr, Inhabited

namespace Motors

def off : Motors := {}

def on (m : Motors) : Drive → Bool
  | .a => m.a
  | .b => m.b
  | .c => m.c
  | .d => m.d

def set (m : Motors) (drive : Drive) (on : Bool) : Motors :=
  match drive with
  | .a => { m with a := on }
  | .b => { m with b := on }
  | .c => { m with c := on }
  | .d => { m with d := on }

theorem on_set (m : Motors) (drive other : Drive) (on : Bool) :
    (m.set drive on).on other = if other = drive then on else m.on other := by
  cases drive <;> cases other <;> rfl

end Motors

structure DigitalOutput where
  motors : Motors := {}
  gate : Bool := false
  resetAsserted : Bool := false
  drive : Drive := .a
  deriving DecidableEq, Repr, Inhabited

namespace DigitalOutput

/-- What firmware leaves behind: out of reset, motors off, drive A. -/
def firmwareDefault (gate : Bool) : DigitalOutput := { gate }

def encode (r : DigitalOutput) : UInt8 :=
  r.drive.index ||| bitIf (!r.resetAsserted) 0x04 ||| bitIf r.gate 0x08 |||
    bitIf r.motors.a 0x10 ||| bitIf r.motors.b 0x20 |||
    bitIf r.motors.c 0x40 ||| bitIf r.motors.d 0x80

def decode (bits : UInt8) : DigitalOutput where
  motors := {
    a := bits &&& 0x10 != 0
    b := bits &&& 0x20 != 0
    c := bits &&& 0x40 != 0
    d := bits &&& 0x80 != 0 }
  gate := bits &&& 0x08 != 0
  resetAsserted := bits &&& 0x04 == 0
  drive := .ofBits bits

@[simp] theorem decode_encode (r : DigitalOutput) : decode r.encode = r := by
  obtain ⟨⟨a, b, c, d⟩, gate, resetAsserted, drive⟩ := r
  revert a b c d gate resetAsserted
  cases drive <;> decide

def motorOn (r : DigitalOutput) (drive : Drive) : Bool := r.motors.on drive

def setMotor (r : DigitalOutput) (drive : Drive) (on : Bool) : DigitalOutput :=
  { r with motors := r.motors.set drive on }

end DigitalOutput

end Diskette
