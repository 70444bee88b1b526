import Diskette.Proofs.Careful.Basic

/-!
Registers and commands as bytes, with care. Motor bits and the bits of a drive are shifted to their places; the number
of the last sector is a sum less one, and the bytes of a command go where there is room for nine.
-/
namespace Diskette

variable {drive : Drive} {flags : RecordingMode} {span : SectorSpan} {command : Command}

namespace Careful

def motors (r : DigitalOutput) : List Bool := [r.motors.a, r.motors.b, r.motors.c, r.motors.d]

def encodeOutput (r : DigitalOutput) : Option UInt8 :=
  (motors r).zipIdx.foldlM
    (fun value (on, i) => do if on then return value ||| (← shift? 1 (4 + i)) else return value)
    ((r.drive.index &&& 3) ||| bitIf (!r.resetAsserted) 0x04 ||| bitIf r.gate 0x08)

def motorOn (r : DigitalOutput) (drive : Drive) : Option Bool := (motors r)[drive.index.toNat]?

/-- The motor that is set is one there is. -/
def setMotor (r : DigitalOutput) (drive : Drive) (on : Bool) : Option DigitalOutput := do
  let _ ← motorOn r drive
  return r.setMotor drive on

def seeking (status : MainStatus) (drive : Drive) : Option Bool := do
  return status.bits &&& (← shift? 1 drive.index.toNat) != 0

theorem encodeOutput_eq (r : DigitalOutput) : encodeOutput r = some r.encode := by
  obtain ⟨⟨a, b, c, d⟩, gate, resetAsserted, drive⟩ := r
  revert a b c d gate resetAsserted
  cases drive <;> decide

theorem motorOn_eq (r : DigitalOutput) (drive : Drive) : motorOn r drive = some (r.motorOn drive) := by
  cases drive <;> rfl

theorem setMotor_eq (r : DigitalOutput) (drive : Drive) (on : Bool) : setMotor r drive on = some (r.setMotor drive on) := by
  simp [setMotor, motorOn_eq]

theorem seeking_eq (status : MainStatus) (drive : Drive) : seeking status drive = some (status.seeking drive) := by
  cases drive <;> rfl

def lastSector (span : SectorSpan) : Option Nat := do
  minus? (← plus? UInt16.size span.sector.toNat span.count.toNat) 1

def validateSpan (span : SectorSpan) : Option (Except Rejection Unit) := do
  if span.head > 1 then return .error .headOutOfRange
  else if span.sector = 0 then return .error .sectorZero
  else if span.count = 0 then return .error .emptyRun
  else if span.sizeCode > 7 then return .error .sizeCodeOutOfRange
  else if (← lastSector span) > 255 then return .error .runPastLastSector
  else return .ok ()

def validate : Command → Option (Except Rejection Unit)
  | .read span | .write span => validateSpan span
  | command => return command.validate

/-- Drive and head as they share a byte. -/
def unit (drive : Drive) (head : UInt8) : Option UInt8 := do
  return drive.index ||| (← shift? (head &&& 1) 2)

def dataBytes (opcode : UInt8) (span : SectorSpan) (drive : Drive) (flags : RecordingMode) : Option (List UInt8) := do
  return [opcode ||| bitIf flags.multiTrack Opcode.multiTrack ||| bitIf flags.mfm Opcode.mfm,
    ← unit drive span.head, span.cylinder, span.head, span.sector, span.sizeCode,
    UInt8.ofNat (← lastSector span), gapLength, unusedLength]

def parameters (drive : Drive) (flags : RecordingMode) : Command → Option (List UInt8)
  | .seek cylinder => do return [Opcode.seek, ← unit drive 0, cylinder]
  | .senseDrive => do return [Opcode.senseDrive, ← unit drive 0]
  | .readId head => do return [Opcode.readId ||| bitIf flags.mfm Opcode.mfm, ← unit drive head]
  | .read span => dataBytes Opcode.readData span drive flags
  | .write span => dataBytes Opcode.writeData span drive flags
  | .specify t path => do
    return [Opcode.specify, (← shift? t.stepRate 4) ||| t.headUnload,
      (← shift? t.headLoad 1) ||| bitIf (path == .port) 1]
  | command => return command.bytes drive flags

/-- The most bytes of a command. -/
def maxCommand : Nat := 9

def commandBytes (command : Command) (drive : Drive) (flags : RecordingMode) : Option (List UInt8) := do
  let bytes ← parameters drive flags command
  room? maxCommand 0 bytes.length
  return bytes

def encode (command : Command) (drive : Drive) (flags : RecordingMode) : Option (Except Rejection (List UInt8)) := do
  match ← validate command with
  | .ok () => return .ok (← commandBytes command drive flags)
  | .error cause => return .error cause

theorem lastSector_eq (h : span.sector ≠ 0) : lastSector span = some span.lastSector := by
  have hsector : span.sector.toNat ≠ 0 := fun hzero => h (UInt8.toNat_inj.mp hzero)
  have hlarge : span.sector.toNat + span.count.toNat < UInt16.size := by
    have hs := span.sector.toNat_lt
    have hc := span.count.toNat_lt
    have hwide : 512 ≤ UInt16.size := by decide
    omega
  have hone : 1 ≤ span.sector.toNat + span.count.toNat := by omega
  simp only [lastSector, plus?_eq hlarge, Option.bind_eq_bind, Option.bind_some, minus?_eq hone]
  rfl

theorem validateSpan_eq (span : SectorSpan) : validateSpan span = some span.validate := by
  unfold validateSpan SectorSpan.validate
  split
  · rfl
  split
  · rfl
  rename_i hsector
  rw [lastSector_eq hsector]
  split
  · rfl
  split
  · rfl
  simp only [Option.bind_eq_bind, Option.bind_some]
  split <;> rfl

theorem validate_eq (command : Command) : validate command = some command.validate := by
  cases command <;> first | exact validateSpan_eq _ | rfl

theorem unit_eq (drive : Drive) (head : UInt8) : unit drive head = some (Command.unit drive head) := rfl

theorem dataBytes_eq {opcode : UInt8} (h : span.sector ≠ 0) :
    dataBytes opcode span drive flags = some (Command.dataBytes opcode span drive flags) := by
  simp [dataBytes, unit_eq, lastSector_eq h, Command.dataBytes]

theorem sector_ne_zero (h : span.validate = .ok ()) : span.sector ≠ 0 := by
  intro hzero
  simp only [SectorSpan.validate, hzero] at h
  split at h <;> simp at h

theorem parameters_eq (h : command.validate = .ok ()) :
    parameters drive flags command = some (command.bytes drive flags) := by
  cases command with
  | read span => exact dataBytes_eq (sector_ne_zero h)
  | write span => exact dataBytes_eq (sector_ne_zero h)
  | _ => rfl

theorem length_bytes_le (command : Command) : (command.bytes drive flags).length ≤ maxCommand := by
  cases command <;> simp [Command.bytes, Command.dataBytes, maxCommand]

theorem commandBytes_eq (h : command.validate = .ok ()) :
    commandBytes command drive flags = some (command.bytes drive flags) := by
  have hroom : room? maxCommand 0 (command.bytes drive flags).length = some () :=
    room?_eq (by simpa using length_bytes_le command)
  simp [commandBytes, parameters_eq h, hroom]

theorem encode_eq (command : Command) : encode command drive flags = some (command.encode drive flags) := by
  unfold encode Command.encode
  rw [validate_eq]
  cases hvalid : command.validate with
  | ok => simp [commandBytes_eq hvalid]
  | error cause => rfl

end Careful
end Diskette
