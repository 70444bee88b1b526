import Diskette.Proofs.Execution
import Diskette.Proofs.Framing

/-!
What can be told from the calls of the driver and the replies to them alone: which windows without
interrupts are open, what the last call has read of the main status, and how many payload bytes are
still to go through the data port.
-/
namespace Diskette

open Simulated (Order)

/-- The payload bytes that go through the data port after an order, unless a channel carries them. -/
def Simulated.Order.payload : Order → Nat
  | transfer _ extent => extent.byteLength
  | _ => 0

structure Wire where
  /-- What the processor's flag was at the start of each open window, the latest first. -/
  windows : List Bool := []
  /-- The main status, if the last call has read it. -/
  status : Option MainStatus := none
  /-- A channel was unmasked in the latest window. -/
  loaded : Bool := false
  /-- The command bytes of the latest window. -/
  command : List UInt8 := []
  due : Nat := 0

namespace Wire

/-- A byte for the data port: of a payload that is due, or else of a command. -/
def put (w : Wire) (value : UInt8) : Wire :=
  if w.due = 0 then
    let command := w.command ++ [value]
    let whole := command.length = Order.length (command.headD 0)
    { w with command, due := if whole ∧ !w.loaded then (Order.ofBytes command).payload else 0 }
  else { w with due := w.due - 1 }

/-- A window without interrupts is opened. -/
def enter (w : Wire) (wasEnabled : Bool) : Wire :=
  { w with status := none, windows := wasEnabled :: w.windows, loaded := false, command := [] }

/-- A reset drops what is due. -/
def hear (base : UInt16) (w : Wire) : (c : Platform.Call) → Platform.Reply c → Wire
  | .input port, byte =>
    if port = Port.mainStatus base then { w with status := some ⟨byte⟩ }
    else if port = Port.data base then { w with status := none, due := w.due - 1 }
    else { w with status := none }
  | .output port value, _ =>
    if port = Port.data base then { w.put value with status := none }
    else if port = Port.digitalOutput base ∧ (DigitalOutput.decode value).resetAsserted then
      { w with status := none, due := 0 }
    else { w with status := none }
  | .channel _ .unmask, _ => { w with status := none, loaded := true }
  | .suppress, wasEnabled => w.enter wasEnabled
  | .resume _, _ => { w with status := none, windows := w.windows.tail }
  | _, _ => { w with status := none }

/-- The last call has read a status, and it is as it should be for a byte of the kind that comes
next. -/
def Paced (w : Wire) (ready payloadReady : MainStatus → Bool) : Prop :=
  w.windows ≠ [] ∧ ∃ status, w.status = some status ∧ ready status ∧
    (w.due ≠ 0 → payloadReady status)

def permits (base : UInt16) (w : Wire) : Platform.Call → Prop
  | .input port =>
    port = Port.data base → w.Paced MainStatus.canRead MainStatus.canReadPayload
  | .output port _ =>
    port = Port.data base → w.Paced MainStatus.canWrite MainStatus.canWritePayload
  | .resume wasEnabled => w.windows.head? = some wasEnabled
  | _ => True

def listener (base : UInt16) : Listener Platform Wire :=
  ⟨permits base, fun w e => w.hear base e.call e.reply⟩

/-- The surroundings of the driver, with the wire tapped. -/
abbrev tapped (base : UInt16) : Surroundings Platform Wire := (listener base).surroundings

variable {base : UInt16} {α : Type} {w w' : Wire}

theorem mainStatus_ne_data : Port.mainStatus base ≠ Port.data base := by
  simp [Port.mainStatus, Port.data]

theorem digitalOutput_ne_data : Port.digitalOutput base ≠ Port.data base := by
  simp [Port.digitalOutput, Port.data]

theorem configControl_ne_data : Port.configControl base ≠ Port.data base := by
  simp [Port.configControl, Port.data]

theorem configControl_ne_digitalOutput : Port.configControl base ≠ Port.digitalOutput base := by
  simp [Port.configControl, Port.digitalOutput]

theorem canRead_of_payload {s : MainStatus} (h : s.canReadPayload) : s.canRead := by
  refine byte_forall (P := fun b => MainStatus.canReadPayload ⟨b⟩ → MainStatus.canRead ⟨b⟩) ?_
    s.bits h
  decide +kernel

theorem canWrite_of_payload {s : MainStatus} (h : s.canWritePayload) : s.canWrite := by
  refine byte_forall (P := fun b => MainStatus.canWritePayload ⟨b⟩ → MainStatus.canWrite ⟨b⟩) ?_
    s.bits h
  decide +kernel

theorem windows_put (value : UInt8) : (w.put value).windows = w.windows := by
  unfold put
  split <;> rfl

theorem windows_hear {c : Platform.Call} (hs : c ≠ .suppress) (hr : ∀ b, c ≠ .resume b)
    (r : Platform.Reply c) : (w.hear base c r).windows = w.windows := by
  cases c with
  | input port =>
    simp only [hear]
    split
    · rfl
    split <;> rfl
  | output port value =>
    simp only [hear]
    split
    · exact windows_put value
    split <;> rfl
  | suppress => exact (hs rfl).elim
  | resume b => exact (hr b rfl).elim
  | channel number c => cases c <;> rfl
  | _ => rfl

theorem status_hear {e : Exchange Platform} {status : MainStatus}
    (h : (w.hear base e.call e.reply).status = some status) :
    ∃ byte, e = ⟨.input (Port.mainStatus base), byte⟩ ∧ status = ⟨byte⟩ := by
  obtain ⟨c, r⟩ := e
  cases c with
  | input port =>
    simp only [hear] at h
    split at h
    · subst port
      exact ⟨r, rfl, (Option.some.inj h).symm⟩
    · split at h <;> cases h
  | output port value =>
    simp only [hear] at h
    split at h
    · cases h
    · split at h <;> cases h
  | channel number c => cases c <;> cases h
  | _ => cases h

/-- Nothing has changed that a window, a command or a payload depends on. -/
structure Still (w w' : Wire) : Prop where
  windows : w'.windows = w.windows
  due : w'.due = w.due
  command : w'.command = w.command
  loaded : w'.loaded = w.loaded

theorem Still.refl : Still w w := ⟨rfl, rfl, rfl, rfl⟩

theorem Still.trans {v : Wire} (h : Still v w) (h' : Still w w') : Still v w' :=
  ⟨h'.windows.trans h.windows, h'.due.trans h.due, h'.command.trans h.command,
    h'.loaded.trans h.loaded⟩

/-- The calls that leave the wire still. -/
def Quiet (base : UInt16) : Platform.Call → Prop
  | .input port => port ≠ Port.data base
  | .output port _ => port ≠ Port.data base ∧ port ≠ Port.digitalOutput base
  | .channel _ c => c ≠ .unmask
  | .suppress => False
  | .resume _ => False
  | _ => True

theorem still_of_quiet {c : Platform.Call} (hc : Quiet base c) (r : Platform.Reply c) :
    Still w (w.hear base c r) := by
  cases c with
  | input port => 
    have hport : port ≠ Port.data base := hc
    simp only [hear, hport, if_false]
    split <;> exact ⟨rfl, rfl, rfl, rfl⟩
  | output port value => 
    have hport : port ≠ Port.data base := hc.1
    have hport' : port ≠ Port.digitalOutput base := hc.2
    simp only [hear, hport, hport', if_false, false_and]
    exact ⟨rfl, rfl, rfl, rfl⟩
  | suppress => exact hc.elim
  | resume => exact hc.elim
  | channel number c =>
    cases c with
    | unmask => exact (hc rfl).elim
    | _ => exact ⟨rfl, rfl, rfl, rfl⟩
  | _ => exact ⟨rfl, rfl, rfl, rfl⟩

theorem permits_of_quiet {c : Platform.Call} (hc : Quiet base c) : permits base w c := by
  cases c with
  | input port => exact fun h => absurd h hc
  | output port value => exact fun h => absurd h hc.1
  | resume => exact hc.elim
  | _ => trivial

theorem ensures_still {p : Routine α} (h : p.Only (Quiet base)) (w : Wire) :
    p.Ensures (tapped base) (fun _ w' => Still w w') w := by
  refine h.ensures ?_ Still.refl
  intro v c hc hv
  refine ⟨permits_of_quiet hc, ?_⟩
  rintro r v' rfl
  exact hv.trans (still_of_quiet hc r)

end Wire
end Diskette
