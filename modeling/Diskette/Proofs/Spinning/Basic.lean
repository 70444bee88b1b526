import Diskette.Proofs.Coherence.Registers
import Diskette.Proofs.Conduct.DataPath

/-!
The drives, as somebody minds them who hears what the driver calls: how the output register may be written, and what
stands in it when a command that needs a motor goes out.
-/
namespace Diskette

namespace Wire

/-- What the wire has come to. -/
abbrev heard (base : UInt16) (t : History Platform) : Wire := (listener base).after {} t

variable {base : UInt16} {t u : History Platform} {w : Wire}

theorem heard_append : heard base (t ++ u) = (listener base).after (heard base t) u := Listener.after_append ..

theorem heard_snoc (e : Exchange Platform) : heard base (t ++ [e]) = (heard base t).hear base e.call e.reply :=
  heard_append

/-- There is nothing to be taken from what is not due. -/
theorem none_due (n : Nat) (hn : n = 0) : n - 1 = 0 := by rw [hn]

/-- Of what is due a call takes one byte at the most, unless it writes a port. -/
theorem due_hear {call : Platform.Call} (h : Unwriting call) (r : Platform.Reply call) :
    (w.hear base call r).due = w.due ∨ (w.hear base call r).due = w.due - 1 := by
  cases call with
  | input port =>
    simp only [hear]
    split
    · exact .inl rfl
    split
    · exact .inr rfl
    · exact .inl rfl
  | output port value => exact absurd rfl (h port value)
  | channel number call => cases call <;> exact .inl rfl
  | _ => exact .inl rfl

/-- To assert the reset line drops what is due. -/
theorem due_hear_output (output : DigitalOutput) (r : Platform.Reply (.output (Port.digitalOutput base) output.encode)) :
    (w.hear base (.output (Port.digitalOutput base) output.encode) r).due =
      if output.resetAsserted then 0 else w.due := by
  simp only [hear, digitalOutput_ne_data, if_false, DigitalOutput.decode_encode, true_and]
  split <;> rfl

theorem due_pulse {s : Shadow} (hbase : s.base = base) (hreset : s.output.resetAsserted = false) :
    (heard base (t ++ pulse s)).due = 0 := by
  rw [heard_append]
  simp [pulse, hbase, hreset, listener, hear, digitalOutput_ne_data]

theorem due_rewrite {s : Shadow} (hbase : s.base = base) (hreset : s.output.resetAsserted = false) :
    (heard base (t ++ rewrite s)).due = (heard base t).due := by
  rw [heard_append]
  generalize heard base t = w
  simp [rewrite, hbase, hreset, listener, hear, digitalOutput_ne_data, configControl_ne_data,
    configControl_ne_digitalOutput]

end Wire

/-- The first byte of a command for which the motor has to run. -/
def Opcode.NeedsMotor (value : UInt8) : Prop := value &&& 0x1F ∈ [recalibrate, seek, readData, writeData]

instance (value : UInt8) : Decidable (Opcode.NeedsMotor value) := inferInstanceAs (Decidable (_ ∈ _))

theorem Command.needsMotor_iff {command : Command} (drive : Drive) (recording : RecordingMode) :
    Opcode.NeedsMotor ((command.bytes drive recording).headD 0) ↔ command.needsMotor := by
  obtain ⟨multiTrack, mfm⟩ := recording
  cases command with
  | seekRelative offset =>
    simp only [bytes, List.headD_cons, needsMotor, kind]
    cases decide (offset < 0) <;> decide
  | readId | read | write =>
    simp only [bytes, dataBytes, List.headD_cons, needsMotor, kind]
    revert multiTrack mfm
    decide
  | _ =>
    simp only [bytes, List.headD_cons, needsMotor, kind]
    decide

/-- With this byte, these ones of a command that needs a motor have gone out. -/
structure Wire.Spells (w : Wire) (value : UInt8) (spoken : List UInt8) : Prop where
  due : w.due = 0
  spoken_eq : w.command ++ [value] = spoken
  needsMotor : Opcode.NeedsMotor (spoken.headD 0)

/-- What is held to in the writes of the output register, and in what was last written to it when a command that
needs a motor has gone out up to some byte. -/
structure Terms where
  writes : DigitalOutput → Prop
  speaks : Option UInt8 → List UInt8 → Prop

/-- Somebody who hears to it that the terms are kept, and that nothing else waits for a motor. -/
def minder (base : UInt16) (terms : Terms) : Listener Platform (History Platform) where
  permits t
    | .output port value =>
      (port = Port.digitalOutput base → terms.writes (.decode value)) ∧
        (port = Port.data base → ∀ spoken, (Wire.heard base t).Spells value spoken →
          terms.speaks (lastWritten (Port.digitalOutput base) t) spoken)
    | .delay ms => ms ≠ Operation.startTime
    | _ => True
  hear t e := t ++ [e]

abbrev minded (base : UInt16) (terms : Terms) : Surroundings Platform (History Platform) := (minder base terms).surroundings

/-- Calls that write no port, and do not wait for a motor. -/
def Passive : Platform.Call → Prop
  | .output _ _ => False
  | .delay ms => ms ≠ Operation.startTime
  | _ => True

/-- A controller whose motors are as they are to be, with one drive selected. Its output register was last written
what the shadow says. -/
structure Steered (base : UInt16) (motors : Motors) (drive : Drive) (Due : Nat → Prop) (c : Controller)
    (t : History Platform) : Prop where
  base_eq : c.base = base
  outOfReset : c.shadow.output.resetAsserted = false
  motors_eq : c.shadow.output.motors = motors
  drive_eq : c.drive = drive
  output : lastWritten (Port.digitalOutput base) t = some c.shadow.output.encode
  due : Due (Wire.heard base t).due

variable {α : Type} {base : UInt16} {terms : Terms} {motors : Motors} {drive : Drive} {Due Due' : Nat → Prop}
  {c c' : Controller} {t u : History Platform} {call : Platform.Call} {p : Routine α}

theorem unwriting_of_passive (h : Passive call) : Unwriting call := by
  rintro port value rfl
  exact h

theorem passive_of_brief {base' : UInt16} {channel : Option UInt8} (h : Brief base' channel call) : Passive call := by
  cases call with
  | output => exact h.elim
  | delay ms =>
    obtain rfl : ms = 1 := h
    exact (by decide : (1 : UInt32) ≠ Operation.startTime)
  | _ => trivial

theorem passive_of_glances {base' : UInt16} (h : Fifo.Glances base' call) : Passive call :=
  passive_of_brief (brief_of_glances h : Brief base' none call)

theorem passive_of_givesUp (h : GivesUp c call) : Passive call := by
  cases call <;> first | exact h.elim | trivial

theorem permits_of_passive (h : Passive call) : (minder base terms).permits t call := by
  cases call with
  | output => exact h.elim
  | delay ms => exact h
  | _ => trivial

/-- What is so of the record of a program is so of it with somebody who minds the drives. -/
theorem Program.Ensures.with_record {Q R : α → History Platform → Prop} (h : p.Ensures recorded Q t)
    (h' : p.Ensures (minded base terms) R t) : p.Ensures (minded base terms) (fun a t' => Q a t' ∧ R a t') t :=
  have hview : ∀ t call r t', (minded base terms).follows t call r t' → recorded.follows (id t) call r (id t') :=
    fun _ _ _ _ => id
  Program.Ensures.seen hview h h'

/-- What is so of the wire after a program is so of it with somebody who minds the drives. -/
theorem Program.Ensures.with_wire {Q : α → Wire → Prop} {R : α → History Platform → Prop}
    (h : p.Ensures (Wire.tapped base) Q (Wire.heard base t)) (h' : p.Ensures (minded base terms) R t) :
    p.Ensures (minded base terms) (fun a t' => Q a (Wire.heard base t') ∧ R a t') t := by
  refine Program.Ensures.seen ?_ h h'
  rintro t call r _ rfl
  exact Wire.heard_snoc _

theorem minder_after : (minder base terms).after t u = t ++ u := Listener.recorder_after t u

/-- What somebody who minds the drives has heard to is so of the record. -/
theorem Program.Ensures.accepted {Q : α → History Platform → Prop} (h : p.Ensures (minded base terms) Q t) :
    p.Ensures recorded (fun a t' => Q a t' ∧ ∃ u, t' = t ++ u ∧ (minder base terms).Accepts t u) t := by
  refine (p.ensures_execution t).mono ?_
  rintro a _ ⟨u, rfl, hexec⟩
  obtain ⟨haccepts, hQ⟩ := hexec.heard h
  rw [minder_after] at hQ
  exact ⟨hQ, u, rfl, haccepts⟩

theorem Operation.Ensures.accepted {op : Operation α} {Q : α → Controller → History Platform → Prop}
    (h : Operation.Ensures (minded base terms) op Q c t) :
    Operation.Ensures recorded op
      (fun a c' t' => Q a c' t' ∧ ∃ u, t' = t ++ u ∧ (minder base terms).Accepts t u) c t :=
  Program.Ensures.accepted (Q := fun r : α × Controller => Q r.1 r.2) h

namespace Steered

theorem of_shadow (h : Steered base motors drive Due c t) (hc : c'.shadow = c.shadow) :
    Steered base motors drive Due c' t := by
  obtain ⟨hbase, hreset, hmotors, hdrive, houtput, hdue⟩ := h
  have hbase' : c'.base = c.base := congrArg Shadow.base hc
  have hdrive' : c'.drive = c.drive := congrArg (fun s : Shadow => s.output.drive) hc
  exact ⟨hbase'.trans hbase, by rwa [hc], by rwa [hc], hdrive'.trans hdrive, by rwa [hc], hdue⟩

theorem weaken (h : Steered base motors drive Due c t) (hDue : ∀ n, Due n → Due' n) :
    Steered base motors drive Due' c t :=
  ⟨h.base_eq, h.outOfReset, h.motors_eq, h.drive_eq, h.output, hDue _ h.due⟩

/-- Calls that do not write the output register. -/
theorem append (h : Steered base motors drive Due c t)
    (hu : ∀ e ∈ u, ∀ value, e.call ≠ .output (Port.digitalOutput base) value)
    (hdue : Due' (Wire.heard base (t ++ u)).due) : Steered base motors drive Due' c (t ++ u) := by
  have houtput := lastWritten_eq_none hu
  exact ⟨h.base_eq, h.outOfReset, h.motors_eq, h.drive_eq, by simpa [houtput] using h.output, hdue⟩

/-- A write of the output register that leaves the drive selected, with the shadow that goes with it. -/
theorem write (h : Steered base motors drive Due c t) (output : DigitalOutput) (hreset : output.resetAsserted = false)
    (hdrive : output.drive = drive) :
    Steered base output.motors drive Due { c with shadow := { c.shadow with output } }
      (t ++ [⟨.output (Port.digitalOutput c.base) output.encode, ()⟩]) := by
  rw [h.base_eq]
  refine ⟨h.base_eq, hreset, rfl, hdrive, by simp, ?_⟩
  rw [Wire.heard_snoc, Wire.due_hear_output, if_neg (by simp [hreset])]
  exact h.due

theorem passive (hDue : ∀ n, Due n → Due (n - 1)) (hcall : Passive call) (h : Steered base motors drive Due c t) :
    (minded base terms).permits t call ∧
      ∀ r t', (minded base terms).follows t call r t' → Steered base motors drive Due c t' := by
  refine ⟨permits_of_passive hcall, ?_⟩
  rintro r _ rfl
  have hwriting := unwriting_of_passive hcall
  refine h.append ?_ ?_
  · intro e he
    obtain rfl := List.mem_singleton.mp he
    exact hwriting _
  · rw [Wire.heard_snoc]
    have hdue : ((Wire.heard base t).hear base call r).due = (Wire.heard base t).due ∨
        ((Wire.heard base t).hear base call r).due = (Wire.heard base t).due - 1 := Wire.due_hear hwriting r
    rcases hdue with hsame | hless
    · rw [hsame]
      exact h.due
    · rw [hless]
      exact hDue _ h.due

theorem routine (hDue : ∀ n, Due n → Due (n - 1)) (hp : p.Only Passive) (h : Steered base motors drive Due c t) :
    p.Ensures (minded base terms) (fun _ => Steered base motors drive Due c) t :=
  hp.ensures (fun _ _ hcall h => h.passive hDue hcall) h

theorem alert (hDue : ∀ n, Due n → Due (n - 1)) : Alert (minded base terms) (Steered base motors drive Due) where
  stance hc h := h.of_shadow (congrArg Controller.shadow hc :)
  brief hcall h := h.passive hDue (passive_of_brief hcall)

theorem detachable (hDue : ∀ n, Due n → Due (n - 1)) :
    Detachable (minded base terms) (Steered base motors drive Due) where
  stance hc h := h.of_shadow (congrArg Controller.shadow hc :)
  givesUp hcall h := h.passive hDue (passive_of_givesUp hcall)
  takePrior h := h.of_shadow rfl
  unhook h := h.of_shadow rfl
  toPort h := h.of_shadow rfl

end Steered
end Diskette
