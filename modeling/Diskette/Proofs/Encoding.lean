import Diskette.Proofs.Careful.Encoding
import Diskette.Proofs.Simulated.Commands

/-!
Commands and their bytes. A command is encoded when its parameters fit and not otherwise, its bytes tell which
command it was, and the controller that takes them one by one obeys at the last one what the command asks for.
-/
namespace Diskette

open Simulated

/-- The sectors of a run on a drive: as many as the run counts, from its first one on. -/
structure Simulated.Extent.Spans (x : Extent) (span : SectorSpan) (drive : Drive) : Prop where
  drive : x.first.drive = drive
  cylinder : x.first.cylinder = span.cylinder
  head : x.first.head = span.head
  sector : x.first.sector = span.sector
  sizeCode : x.sizeCode = span.sizeCode
  ordered : x.first.sector.toNat ≤ x.last.toNat
  count : x.last.toNat - x.first.sector.toNat + 1 = span.count.toNat

/-- The cylinders a head moves by, towards the last one. -/
def signedSteps (outward : Bool) (cylinders : UInt8) : Int :=
  if outward then -cylinders.toNat else cylinders.toNat

/-- What the controller does is what a command asks of a drive. -/
inductive Simulated.Order.Renders (drive : Drive) : Order → Command → Prop
  | recalibrate : Renders drive (.recalibrate drive) .recalibrate
  | seek (cylinder : UInt8) : Renders drive (.seek drive 0 cylinder) (.seek cylinder)
  | seekRelative {outward : Bool} {cylinders : UInt8} {offset : Int16} :
      signedSteps outward cylinders = offset.toInt →
      Renders drive (.step drive outward cylinders) (.seekRelative offset)
  | senseInterrupt : Renders drive .senseInterrupt .senseInterrupt
  | senseDrive : Renders drive (.senseDrive drive 0) .senseDrive
  | readId (head : UInt8) : Renders drive (.readId drive head) (.readId head)
  | read {x : Extent} {span : SectorSpan} : x.Spans span drive → Renders drive (.transfer false x) (.read span)
  | write {x : Extent} {span : SectorSpan} : x.Spans span drive → Renders drive (.transfer true x) (.write span)
  | specify (timing : DriveTiming) (path : DataPath) :
      Renders drive (.specify (path == .port)) (.specify timing path)
  | version : Renders drive .version .version

variable {command command' : Command} {drive drive' : Drive} {flags flags' : RecordingMode} {order : Order}
  {span span' : SectorSpan} {x : Extent} {m : Simulated}

theorem spans_extent (h : span.validate = .ok ()) : (span.extent drive).Spans span drive := by
  obtain ⟨-, -, hcount, -, hlast⟩ := SectorSpan.validate_eq_ok_iff.mp h
  have hsome : span.count.toNat ≠ 0 := fun hzero => hcount (UInt8.toNat_inj.mp hzero)
  have hwidth : (span.extent drive).last.toNat = span.lastSector :=
    UInt8.toNat_ofNat_of_lt' (Nat.lt_succ_of_le hlast)
  have hfirst : (span.extent drive).first.sector = span.sector := rfl
  constructor
  case ordered =>
    rw [hwidth, hfirst, SectorSpan.lastSector]
    omega
  case count =>
    rw [hwidth, hfirst, SectorSpan.lastSector]
    omega
  all_goals rfl

theorem signedSteps_seekRelative {offset : Int16} (h : (Command.seekRelative offset).validate = .ok ()) :
    signedSteps (offset < 0) (UInt8.ofNat offset.toInt.natAbs) = offset.toInt := by
  have hnear := natAbs_le_of_seekRelative h
  have hsteps : (UInt8.ofNat offset.toInt.natAbs).toNat = offset.toInt.natAbs :=
    UInt8.toNat_ofNat_of_lt' (Nat.lt_succ_of_le hnear)
  have houtward : offset < 0 ↔ offset.toInt < 0 := Int16.lt_iff_toInt_lt
  simp only [signedSteps, hsteps, houtward, decide_eq_true_eq]
  split <;> omega

theorem renders_order (h : command.validate = .ok ()) : (command.order drive).Renders drive command := by
  cases command with
  | recalibrate => exact .recalibrate
  | seek cylinder => exact .seek cylinder
  | seekRelative offset => exact .seekRelative (signedSteps_seekRelative h)
  | senseInterrupt => exact .senseInterrupt
  | senseDrive => exact .senseDrive
  | readId head => exact .readId head
  | read span => exact .read (spans_extent h)
  | write span => exact .write (spans_extent h)
  | specify timing path => exact .specify timing path
  | version => exact .version

namespace Command

/-- Goes to a drive, which its bytes name. -/
def Addressed : Command → Prop
  | senseInterrupt | specify _ _ | version => False
  | _ => True

/-- The recording modes agree in what the command has a use for. -/
def SameRecording (flags flags' : RecordingMode) : Command → Prop
  | read _ | write _ => flags.multiTrack = flags'.multiTrack ∧ flags.mfm = flags'.mfm
  | readId _ => flags.mfm = flags'.mfm
  | _ => True

end Command

theorem span_eq_of_spans (h : x.Spans span drive) (h' : x.Spans span' drive') : span = span' := by
  have hcount : span.count = span'.count := by
    apply UInt8.toNat_inj.mp
    rw [← h.count, ← h'.count]
  have hcylinder := h.cylinder.symm.trans h'.cylinder
  have hhead := h.head.symm.trans h'.head
  have hsector := h.sector.symm.trans h'.sector
  have hsize := h.sizeCode.symm.trans h'.sizeCode
  cases span
  cases span'
  simp_all

theorem path_eq_of_port {path path' : DataPath} (h : (path == .port) = (path' == .port)) : path = path' := by
  revert h
  cases path <;> cases path' <;> decide

/-- What the controller does tells the drive, and the command but for the timing of a specify, which it has no
use for. -/
theorem eq_of_renders (h : order.Renders drive command) (h' : order.Renders drive' command') :
    (command.Addressed → drive = drive') ∧
      (command = command' ∨
        ∃ timing timing' path, command = .specify timing path ∧ command' = .specify timing' path) := by
  cases h with
  | recalibrate => cases h' with | recalibrate => exact ⟨fun _ => rfl, .inl rfl⟩
  | seek cylinder => cases h' with | seek => exact ⟨fun _ => rfl, .inl rfl⟩
  | seekRelative hsteps =>
    cases h' with
    | seekRelative hsteps' =>
      have hoffset := Int16.toInt_inj.mp (hsteps.symm.trans hsteps')
      exact ⟨fun _ => rfl, .inl (congrArg Command.seekRelative hoffset)⟩
  | senseInterrupt => cases h' with | senseInterrupt => exact ⟨nofun, .inl rfl⟩
  | senseDrive => cases h' with | senseDrive => exact ⟨fun _ => rfl, .inl rfl⟩
  | readId head => cases h' with | readId => exact ⟨fun _ => rfl, .inl rfl⟩
  | read hspans =>
    cases h' with
    | read hspans' =>
      have hspan := span_eq_of_spans hspans hspans'
      exact ⟨fun _ => hspans.drive.symm.trans hspans'.drive, .inl (congrArg Command.read hspan)⟩
  | write hspans =>
    cases h' with
    | write hspans' =>
      have hspan := span_eq_of_spans hspans hspans'
      exact ⟨fun _ => hspans.drive.symm.trans hspans'.drive, .inl (congrArg Command.write hspan)⟩
  | specify timing path =>
    generalize hport : (path == .port) = port at h'
    cases h' with
    | specify timing' path' =>
      obtain rfl := path_eq_of_port hport
      exact ⟨nofun, .inr ⟨timing, timing', path, rfl, rfl⟩⟩
  | version => cases h' with | version => exact ⟨nofun, .inl rfl⟩

theorem nibbles_of_or {high low : UInt8} (hhigh : high ≤ 0x0F) (hlow : low ≤ 0x0F) :
    ((high <<< 4) ||| low) >>> 4 = high ∧ ((high <<< 4) ||| low) &&& 0x0F = low := by
  have hall : ∀ a ≤ 15, ∀ b ≤ 15, ((UInt8.ofNat a <<< 4) ||| UInt8.ofNat b) >>> 4 = UInt8.ofNat a ∧
      ((UInt8.ofNat a <<< 4) ||| UInt8.ofNat b) &&& 0x0F = UInt8.ofNat b := by decide +kernel
  simpa using hall high.toNat (UInt8.le_iff_toNat_le.mp hhigh) low.toNat (UInt8.le_iff_toNat_le.mp hlow)

theorem shifted_of_or {byte : UInt8} (h : byte ≤ 0x7F) (on : Bool) : ((byte <<< 1) ||| bitIf on 1) >>> 1 = byte := by
  have hall : ∀ a ≤ 127, ∀ on, ((UInt8.ofNat a <<< 1) ||| bitIf on 1) >>> 1 = UInt8.ofNat a := by decide +kernel
  simpa using hall byte.toNat (UInt8.le_iff_toNat_le.mp h) on

theorem DriveTiming.le_of_validate {timing : DriveTiming} {path : DataPath}
    (h : (Command.specify timing path).validate = .ok ()) :
    timing.stepRate ≤ 0x0F ∧ timing.headUnload ≤ 0x0F ∧ timing.headLoad ≤ 0x7F := by
  simp only [Command.validate] at h
  split at h
  · contradiction
  · rename_i hfits
    simpa only [gt_iff_lt, not_or, UInt8.not_lt] using hfits

/-- The timing of a specify is in its bytes. -/
theorem DriveTiming.eq_of_bytes {timing timing' : DriveTiming} {path : DataPath}
    (h : (Command.specify timing path).validate = .ok ()) (h' : (Command.specify timing' path).validate = .ok ())
    (hbytes : (Command.specify timing path).bytes drive flags = (Command.specify timing' path).bytes drive' flags') :
    timing = timing' := by
  obtain ⟨hrate, hunload, hload⟩ := le_of_validate h
  obtain ⟨hrate', hunload', hload'⟩ := le_of_validate h'
  simp only [Command.bytes, List.cons.injEq, and_true, true_and] at hbytes
  obtain ⟨hfirst, hsecond⟩ := hbytes
  have hhigh := nibbles_of_or hrate hunload
  rw [hfirst] at hhigh
  have hlow := nibbles_of_or hrate' hunload'
  have hlast := shifted_of_or hload (path == .port)
  rw [hsecond, shifted_of_or hload'] at hlast
  cases timing
  cases timing'
  simp_all

/-- The recording mode is in the first byte, as far as a command has a use for it. -/
theorem sameRecording_of_bytes (h : command.bytes drive flags = command.bytes drive' flags') :
    command.SameRecording flags flags' := by
  have hread : ∀ a b a' b', Opcode.readData ||| bitIf a Opcode.multiTrack ||| bitIf b Opcode.mfm =
      Opcode.readData ||| bitIf a' Opcode.multiTrack ||| bitIf b' Opcode.mfm → a = a' ∧ b = b' := by decide
  have hwrite : ∀ a b a' b', Opcode.writeData ||| bitIf a Opcode.multiTrack ||| bitIf b Opcode.mfm =
      Opcode.writeData ||| bitIf a' Opcode.multiTrack ||| bitIf b' Opcode.mfm → a = a' ∧ b = b' := by decide
  have hid : ∀ b b', Opcode.readId ||| bitIf b Opcode.mfm = Opcode.readId ||| bitIf b' Opcode.mfm → b = b' := by
    decide
  cases command with
  | read span => exact hread _ _ _ _ (List.cons.inj h).1
  | write span => exact hwrite _ _ _ _ (List.cons.inj h).1
  | readId head => exact hid _ _ (List.cons.inj h).1
  | _ => trivial

/-- Two commands that fit and have the same bytes are the same command, of the same drive if it goes to one, in the
same recording mode if it has a use for that. -/
theorem eq_of_bytes (h : command.validate = .ok ()) (h' : command'.validate = .ok ())
    (hbytes : command.bytes drive flags = command'.bytes drive' flags') :
    command = command' ∧ (command.Addressed → drive = drive') ∧ command.SameRecording flags flags' := by
  have horder : command.order drive = command'.order drive' := by
    rw [← Command.ofBytes_bytes h drive flags, hbytes, Command.ofBytes_bytes h']
  have hrenders : (command.order drive).Renders drive command := renders_order h
  rw [horder] at hrenders
  obtain ⟨hdrive, hcommand⟩ := eq_of_renders hrenders (renders_order h')
  have heq : command = command' := by
    rcases hcommand with heq | ⟨timing, timing', path, rfl, rfl⟩
    · exact heq
    · rw [DriveTiming.eq_of_bytes h h' hbytes]
  subst heq
  exact ⟨rfl, hdrive, sameRecording_of_bytes hbytes⟩

namespace Simulated

/-- Part of a command has come. -/
def holding (m : Simulated) (bytes : List UInt8) : Simulated :=
  { m with fdc := { m.fdc with partialCommand := bytes } }

/-- A command has come whole, and is yet to be obeyed. -/
def noting (m : Simulated) (first : UInt8) : Simulated :=
  { m with fdc := { m.fdc with partialCommand := [], commands := first :: m.fdc.commands } }

/-- Waits for a command of so many bytes, and will take all of them. -/
structure Receptive (m : Simulated) (count : Nat) : Prop where
  idle : m.fdc.idle = true
  unlimited : ∀ limit, m.faults.commandLimit = some limit → count ≤ limit

theorem Receptive.holding_nil {count : Nat} (h : m.Receptive count) : m.holding [] = m := by
  have hidle := h.idle
  simp only [Fdc.idle, Bool.and_eq_true, List.isEmpty_iff] at hidle
  rw [holding, ← hidle.1.2]

theorem Receptive.acceptByte_holding {bytes : List UInt8} {count : Nat} (h : m.Receptive count)
    (hshort : bytes.length < count) (b : UInt8) :
    (m.holding bytes).acceptByte b = (m.holding bytes).takeCommandByte b := by
  have hidle := h.idle
  simp only [Fdc.idle, Bool.and_eq_true, Bool.not_eq_true', beq_iff_eq] at hidle
  obtain ⟨⟨hstage, -⟩, hreset⟩ := hidle
  have hlimit : m.faults.commandLimit ≠ some bytes.length := by
    intro hlimit
    have hmore := h.unlimited _ hlimit
    omega
  exact Core.acceptByte_command (m := m.holding bytes) hreset hstage hlimit b

theorem takeCommandByte_partway {bytes : List UInt8} {b : UInt8}
    (hmore : (bytes ++ [b]).length ≠ Order.length ((bytes ++ [b]).headD 0)) :
    (m.holding bytes).takeCommandByte b = m.holding (bytes ++ [b]) := by
  dsimp only [takeCommandByte, holding]
  rw [if_neg hmore]

theorem takeCommandByte_whole {bytes : List UInt8} {b : UInt8}
    (hlength : (bytes ++ [b]).length = Order.length ((bytes ++ [b]).headD 0)) :
    (m.holding bytes).takeCommandByte b = (m.noting ((bytes ++ [b]).headD 0)).obey (.ofBytes (bytes ++ [b])) := by
  dsimp only [takeCommandByte, holding]
  rw [if_pos hlength]
  rfl

/-- A byte before the last one is kept, and nothing else comes of it. -/
theorem Receptive.foldl_take {bytes : List UInt8} (h : m.Receptive bytes.length)
    (hlength : bytes.length = Order.length (bytes.headD 0)) {k : Nat} (hk : k < bytes.length) :
    (bytes.take k).foldl acceptByte m = m.holding (bytes.take k) := by
  induction k with
  | zero => exact h.holding_nil.symm
  | succ k ih =>
    have hbefore : k < bytes.length := by omega
    have hheld : (bytes.take k).length < bytes.length := by
      rw [List.length_take]
      omega
    have hnext : bytes.take (k + 1) = bytes.take k ++ [bytes[k]] := List.take_succ_eq_append_getElem hbefore
    have hfirst : (bytes.take (k + 1)).headD 0 = bytes.headD 0 := by
      cases bytes <;> rfl
    have hmore : (bytes.take (k + 1)).length ≠ Order.length ((bytes.take (k + 1)).headD 0) := by
      rw [hfirst, ← hlength, List.length_take]
      omega
    rw [hnext] at hmore ⊢
    rw [List.foldl_append, ih hbefore, List.foldl_cons, List.foldl_nil, h.acceptByte_holding hheld,
      takeCommandByte_partway hmore]

/-- The last byte makes the command whole, and it is obeyed at once. -/
theorem Receptive.foldl_acceptByte {bytes : List UInt8} (h : m.Receptive bytes.length)
    (hlength : bytes.length = Order.length (bytes.headD 0)) :
    bytes.foldl acceptByte m = (m.noting (bytes.headD 0)).obey (.ofBytes bytes) := by
  have hsome : bytes ≠ [] := ne_nil_of_order hlength
  have hpos : 0 < bytes.length := List.length_pos_iff.mpr hsome
  have hheld : bytes.dropLast.length < bytes.length := by
    rw [List.length_dropLast]
    omega
  have hbefore : bytes.dropLast.foldl acceptByte m = m.holding bytes.dropLast := by
    rw [List.dropLast_eq_take]
    exact h.foldl_take hlength (by omega)
  have hwhole : bytes.dropLast ++ [bytes.getLast hsome] = bytes := List.dropLast_concat_getLast hsome
  calc bytes.foldl acceptByte m
      = (bytes.dropLast ++ [bytes.getLast hsome]).foldl acceptByte m := by rw [hwhole]
    _ = (m.holding bytes.dropLast).takeCommandByte (bytes.getLast hsome) := by
        rw [List.foldl_append, hbefore, List.foldl_cons, List.foldl_nil, h.acceptByte_holding hheld]
    _ = (m.noting (bytes.headD 0)).obey (.ofBytes bytes) := by
        rw [takeCommandByte_whole (by rwa [hwhole]), hwhole]

end Simulated

/-- The bytes are those of one command, and the controller reads it out of them. -/
structure Command.Conveyed (command : Command) (drive : Drive) (flags : RecordingMode) (bytes : List UInt8) : Prop where
  fits : bytes.length ≤ Careful.maxCommand
  /-- No other command has these bytes, nor this one for another drive or in another mode. -/
  alone : ∀ command' drive' flags', command'.encode drive' flags' = .ok bytes →
    command = command' ∧ (command.Addressed → drive = drive') ∧ command.SameRecording flags flags'
  framed : bytes.length = Order.length (bytes.headD 0)
  renders : (Order.ofBytes bytes).Renders drive command
  /-- All bytes but the last are no more than kept. -/
  kept : ∀ m : Simulated, m.Receptive bytes.length → ∀ k < bytes.length,
    (bytes.take k).foldl acceptByte m = m.holding (bytes.take k)
  obeyed : ∀ m : Simulated, m.Receptive bytes.length →
    bytes.foldl acceptByte m = (m.noting (bytes.headD 0)).obey (.ofBytes bytes)

/-- A command is encoded if its parameters fit and not otherwise, with room for nine bytes; its bytes tell which
command it is, and the controller takes them as that command. -/
theorem encoding_faithful (command : Command) (drive : Drive) (flags : RecordingMode) :
    ((∃ bytes, command.encode drive flags = .ok bytes) ↔ command.validate = .ok ()) ∧
      Careful.encode command drive flags = some (command.encode drive flags) ∧
      ∀ bytes, command.encode drive flags = .ok bytes → command.Conveyed drive flags bytes := by
  constructor
  · simp only [Command.encode_eq_ok_iff, exists_and_left, exists_eq', and_true]
  constructor
  · exact Careful.encode_eq command
  intro bytes hencode
  obtain ⟨hvalid, rfl⟩ := Command.encode_eq_ok_iff.mp hencode
  have hframed := Command.length_bytes command drive flags
  constructor
  case fits => exact Careful.length_bytes_le command
  case framed => exact hframed
  case kept =>
    intro m hm k hk
    exact hm.foldl_take hframed hk
  case obeyed =>
    intro m hm
    exact hm.foldl_acceptByte hframed
  case renders =>
    rw [Command.ofBytes_bytes hvalid]
    exact renders_order hvalid
  case alone =>
    intro command' drive' flags' hencode'
    obtain ⟨hvalid', hbytes⟩ := Command.encode_eq_ok_iff.mp hencode'
    exact eq_of_bytes hvalid hvalid' hbytes.symm

/-- The last sectors that a run can have, and the longest step out, on a machine that is ready for them. -/
theorem encoding_faithful_limits :
    (Command.write ⟨79, 1, 250, 2, 6⟩).Conveyed .d {} [0xC5, 0x07, 79, 1, 250, 2, 255, 0x1B, 0xFF] ∧
      (Command.seekRelative (-255)).Conveyed .b {} [0xCF, 0x01, 255] ∧ Simulated.Receptive {} 9 :=
  ⟨(encoding_faithful (.write ⟨79, 1, 250, 2, 6⟩) .d {}).2.2 _ rfl,
    (encoding_faithful (.seekRelative (-255)) .b {}).2.2 _ rfl, rfl, nofun⟩

end Diskette
