import Diskette.Command.Basic

/-! The caller's side of a data command: its buffer, checked before anything is sent. -/
namespace Diskette

inductive PayloadBuffer
  /-- Receives what is read. -/
  | destination (bytes : List UInt8)
  | source (bytes : List UInt8)
  deriving DecidableEq, Repr, Inhabited

namespace PayloadBuffer

def bytes : PayloadBuffer → List UInt8
  | destination bs | source bs => bs

def direction : PayloadBuffer → Direction
  | destination _ => .toMemory
  | source _ => .fromMemory

/-- The buffer once some bytes have arrived at its front; a source stays as it is. -/
def receive (b : PayloadBuffer) (delivered : List UInt8) : PayloadBuffer :=
  match b with
  | destination bs => destination (delivered ++ bs.drop delivered.length)
  | source bs => source bs

@[simp] theorem receive_nil (b : PayloadBuffer) : b.receive [] = b := by
  cases b <;> rfl

end PayloadBuffer

structure Transfer where
  /-- Bytes to move; the buffer may be longer. -/
  length : Nat
  buffer : PayloadBuffer
  deriving DecidableEq, Repr, Inhabited

namespace Transfer

def read (bytes : List UInt8) : Transfer := ⟨bytes.length, .destination bytes⟩

def write (bytes : List UInt8) : Transfer := ⟨bytes.length, .source bytes⟩

def direction (t : Transfer) : Direction := t.buffer.direction

/-- Checks a transfer against its command and the bounce buffer it has to fit through. -/
def validate (t : Transfer) (command : Command) (capacity : Nat) : Except Rejection Unit := do
  command.validate
  match command.transfer? with
  | none => .error .carriesNoData
  | some (span, direction) =>
    if direction ≠ t.direction then .error .wrongDirection
    else if t.length ≠ span.byteLength then .error .wrongLength
    else if t.length > t.buffer.bytes.length then .error .bufferTooShort
    else if t.length > capacity then .error .exceedsBounceBuffer
    else .ok ()

end Transfer

end Diskette
