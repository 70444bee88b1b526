import Diskette.Proofs.Conduct.Calm
import Diskette.Proofs.Wire.Fifo

/-!
What the controller has been told of its data path: the non-DMA bit of the last Specify that went out whole since
the last reset. A data command is to begin only when that says where its payload will go.
-/
namespace Diskette

open Simulated (Order)

namespace Opcode

/-- The first byte of a command with a payload. -/
def CarriesData (value : UInt8) : Prop := value &&& 0x1F = readData ∨ value &&& 0x1F = writeData

instance (value : UInt8) : Decidable (CarriesData value) := inferInstanceAs (Decidable (_ ∨ _))

/-- The non-DMA bit of a Specify. -/
def nonDma : List UInt8 → Option Bool
  | [opcode, _, last] => if opcode = specify then some (last &&& 1 != 0) else none
  | _ => none

/-- A Specify is whole. -/
theorem length_of_nonDma {bytes : List UInt8} {bit : Bool} (h : nonDma bytes = some bit) :
    bytes.length = Order.length (bytes.headD 0) := by
  match bytes, h with
  | [opcode, _, _], h =>
    simp only [nonDma] at h
    split at h
    · rename_i hopcode
      rw [hopcode]
      exact (by decide : 3 = Order.length specify)
    · cases h

end Opcode

namespace Command

/-- The path that a command tells the controller. -/
def tells : Command → Option DataPath
  | specify _ path => some path
  | _ => none

theorem tells_of_transfer {command : Command} {data : SectorSpan × Direction} (h : command.transfer? = some data) :
    command.tells = none := by
  cases command with
  | read | write => rfl
  | _ => cases h

theorem tells_of_seek {command : Command} (h : command.kind = .seek) : command.tells = none := by
  cases command with
  | specify => cases h
  | _ => rfl

theorem nonDma_bytes (command : Command) (drive : Drive) (recording : RecordingMode) :
    Opcode.nonDma (command.bytes drive recording) = command.tells.map (· == .port) := by
  cases command with
  | specify t path => simp [bytes, Opcode.nonDma, tells, port_bit]
  | seekRelative offset =>
    have hopcode : (Opcode.relativeSeek ||| bitIf (offset < 0) Opcode.outward) ≠ Opcode.specify := by
      cases decide (offset < 0) <;> decide
    simp [bytes, Opcode.nonDma, tells, hopcode]
  | seek cylinder =>
    have hopcode : Opcode.seek ≠ Opcode.specify := by decide
    simp [bytes, Opcode.nonDma, tells, hopcode]
  | _ => rfl

theorem not_carriesData {command : Command} (hdata : command.transfer? = none) (drive : Drive)
    (recording : RecordingMode) : ¬Opcode.CarriesData ((command.bytes drive recording).headD 0) := by
  cases command with
  | read | write => cases hdata
  | seekRelative offset =>
    simp only [bytes, List.headD_cons]
    cases decide (offset < 0) <;> decide
  | readId head =>
    simp only [bytes, List.headD_cons]
    cases recording.mfm <;> decide
  | _ =>
    simp only [bytes, List.headD_cons]
    decide

end Command

/-- The controller as it receives its bytes: the wire, and what it has been told on it. -/
structure Receiver where
  wire : Wire := {}
  /-- The controller has been reset since the latest window was opened. -/
  pulsed : Bool := false
  nonDma : Option Bool := none

namespace Receiver

/-- A write that asserts the reset line. -/
def resets (base : UInt16) : Platform.Call → Bool
  | .output port value => port == Port.digitalOutput base && (DigitalOutput.decode value).resetAsserted
  | _ => false

def hear (base : UInt16) (x : Receiver) (e : Exchange Platform) : Receiver where
  wire := x.wire.hear base e.call e.reply
  pulsed :=
    match e.call with
    | .suppress => false
    | call => x.pulsed || resets base call
  nonDma :=
    match e.call with
    | .output port value =>
      if resets base (.output port value) then none
      else if port = Port.data base ∧ x.wire.due = 0 ∧ x.pulsed = false then
        (Opcode.nonDma (x.wire.command ++ [value])).or x.nonDma
      else x.nonDma
    | _ => x.nonDma

/-- A byte is the first one of a command with a payload. -/
structure Begins (x : Receiver) (value : UInt8) : Prop where
  due : x.wire.due = 0
  command : x.wire.command = []
  carriesData : Opcode.CarriesData value

/-- A data command that has no channel set up for it is told to be one without DMA, and the other way around. -/
def permits (base : UInt16) (x : Receiver) : Platform.Call → Prop
  | .output port value =>
    port = Port.data base → x.Begins value → x.nonDma = some (!x.wire.loaded)
  | _ => True

def listener (base : UInt16) : Listener Platform Receiver := ⟨permits base, hear base⟩

/-- The surroundings of the driver, with a controller that takes in what it is told. -/
abbrev heeded (base : UInt16) : Surroundings Platform Receiver := (listener base).surroundings

variable {base : UInt16} {α : Type} {x y : Receiver} {e : Exchange Platform}

theorem wire_hear : (hear base x e).wire = x.wire.hear base e.call e.reply := rfl

theorem not_resets_data (value : UInt8) : resets base (.output (Port.data base) value) = false := by
  simp [resets, Wire.digitalOutput_ne_data.symm]

/-- Calls that neither reset the controller nor give it a byte. -/
def Aside (base : UInt16) : Platform.Call → Prop
  | .output port value => port ≠ Port.data base ∧ resets base (.output port value) = false
  | _ => True

theorem permits_of_aside {call : Platform.Call} (h : Aside base call) : permits base x call := by
  cases call with
  | output port value => exact fun hport => absurd hport h.1
  | _ => trivial

theorem nonDma_aside (h : Aside base e.call) : (hear base x e).nonDma = x.nonDma := by
  obtain ⟨call, r⟩ := e
  cases call with
  | output port value =>
    obtain ⟨hport, hreset⟩ := h
    simp [hear, hport, hreset]
  | _ => rfl

theorem due_aside (h : Aside base e.call) (hx : x.wire.due = 0) : (hear base x e).wire.due = 0 := by
  rw [wire_hear]
  obtain ⟨call, r⟩ := e
  cases call with
  | input port =>
    simp only [Wire.hear]
    split
    · exact hx
    split
    · simp only [hx]
    · exact hx
  | output port value =>
    simp only [Wire.hear, h.1, if_false]
    split
    · rfl
    · exact hx
  | channel number call => cases call <;> exact hx
  | _ => exact hx

/-- What is kept of what the controller was told, in the midst of a window as well. -/
structure Kept (x y : Receiver) : Prop where
  still : Wire.Still x.wire y.wire
  pulsed : y.pulsed = x.pulsed
  nonDma : y.nonDma = x.nonDma

theorem Kept.refl : Kept x x := ⟨.refl, rfl, rfl⟩

theorem aside_of_quiet {call : Platform.Call} (h : Wire.Quiet base call) : Aside base call := by
  cases call with
  | output port value => exact ⟨h.1, by simp [resets, h.2]⟩
  | _ => trivial

theorem kept_of_quiet (h : Wire.Quiet base e.call) : Kept x (hear base x e) := by
  refine ⟨Wire.still_of_quiet h e.reply, ?_, nonDma_aside (aside_of_quiet h)⟩
  obtain ⟨call, r⟩ := e
  cases call with
  | output port value =>
    have hreset : resets base (.output port value) = false := (aside_of_quiet h).2
    simp [hear, hreset]
  | suppress => exact h.elim
  | _ => exact Bool.or_false x.pulsed

theorem ensures_kept {p : Routine α} (h : p.Only (Wire.Quiet base)) (x : Receiver) :
    p.Ensures (heeded base) (fun _ y => Kept x y) x := by
  refine h.ensures ?_ Kept.refl
  intro y call hcall hy
  refine ⟨permits_of_aside (aside_of_quiet hcall), ?_⟩
  rintro r _ rfl
  have hnext : Kept y (hear base y ⟨call, r⟩) := kept_of_quiet hcall
  exact ⟨hy.still.trans hnext.still, hnext.pulsed.trans hy.pulsed, hnext.nonDma.trans hy.nonDma⟩

theorem aside_of_plain {base' : UInt16} {channel : Option UInt8} {call : Platform.Call} (h : Plain base' channel call) :
    Aside base call := by
  cases call <;> trivial

theorem aside_of_looks {call : Platform.Call} (h : Fifo.Looks base call) : Aside base call :=
  aside_of_plain (plain_of_looks h : Plain base none call)

theorem ensures_aside {p : Routine α} (h : p.Only (Aside base)) (hdue : x.wire.due = 0) :
    p.Ensures (heeded base) (fun _ y => y.wire.due = 0 ∧ y.nonDma = x.nonDma) x := by
  refine h.ensures (K := fun y : Receiver => y.wire.due = 0 ∧ y.nonDma = x.nonDma) ?_ ⟨hdue, rfl⟩
  rintro y call hcall ⟨hy, hnonDma⟩
  refine ⟨permits_of_aside hcall, ?_⟩
  rintro r _ rfl
  exact ⟨due_aside hcall hy, (nonDma_aside hcall).trans hnonDma⟩

end Receiver
end Diskette
