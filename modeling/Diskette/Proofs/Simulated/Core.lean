import Diskette.Proofs.Surroundings
import Diskette.Simulated.Machine

/-!
The simulated machine without its interrupts. A wait that no interrupt ends is ended by a look at the
status, so what becomes of a command is decided by what is left here.
-/
namespace Diskette

open Simulated

structure Core where
  fdc : Fdc
  /-- The channel that the controller is wired to. -/
  channel : ChannelState
  faults : Faults
  bounceAddress : UInt32
  bounce : Array UInt8

namespace Simulated

def core (m : Simulated) : Core :=
  ⟨m.fdc, m.channels fdcChannel, m.faults, m.interrupts.memory.bounceAddress,
    m.interrupts.memory.bounce⟩

/-- A write is noted, whichever register it is for. -/
def notingWrite (m : Simulated) (port : UInt16) (value : UInt8) : Simulated :=
  { m.countAccess with writes := (port, value) :: m.writes }

end Simulated

namespace Core

/-- What a call may do to the core: whatever it does to a machine around it. -/
def surroundings : Surroundings Platform Core where
  permits _ _ := True
  follows k c r k' := ∃ m : Simulated, m.core = k ∧ (m.step c).1 = r ∧ (m.step c).2.core = k'

theorem keepsTo : Simulated.machine.KeepsTo surroundings Simulated.core :=
  fun _ m => ⟨m, rfl, rfl, rfl⟩

variable {α : Type} {k : Core} {base : UInt16} {m : Simulated}

theorem ensures_call {c : Platform.Call} {next : Platform.Reply c → Routine α}
    {Q : α → Core → Prop} :
    (Program.call c next : Routine α).Ensures surroundings Q k ↔ ∀ m : Simulated, m.core = k →
      (next (m.step c).1).Ensures surroundings Q (m.step c).2.core := by
  constructor
  · intro h m hm
    exact h.2 _ _ ⟨m, hm, rfl, rfl⟩
  · intro h
    refine ⟨trivial, ?_⟩
    rintro r k' ⟨m, hm, rfl, rfl⟩
    exact h m hm

theorem ensures_perform {c : Platform.Call} {Q : Platform.Reply c → Core → Prop}
    (h : ∀ m : Simulated, m.core = k → Q (m.step c).1 (m.step c).2.core) :
    (Program.call c .done : Routine (Platform.Reply c)).Ensures surroundings Q k :=
  ensures_call.mpr h

def Incidental (base : UInt16) : Platform.Call → Prop
  | .input port => port ≠ Port.data base
  | .output _ _ => False
  | .channel number _ => number ≠ fdcChannel
  | .memory (.store _) => False
  | _ => True

/-- Interrupts move nothing in memory but the counters. -/
def KeepsBounce (u u' : InterruptUnit) : Prop :=
  u'.memory.bounceAddress = u.memory.bounceAddress ∧ u'.memory.bounce = u.memory.bounce

theorem keepsBounce_serve (handler : Option Handler) (irq : UInt8) (u : InterruptUnit) :
    KeepsBounce u ((Handler.dispatch handler irq).run InterruptUnit.service u).2 := by
  cases handler with
  | none => exact ⟨rfl, rfl⟩
  | some handler =>
    cases handler with
    | acknowledging irq => exact ⟨rfl, rfl⟩
    | counting line =>
      simp only [Handler.dispatch, Handler.serve, Program.run_bind]
      split <;> exact ⟨rfl, rfl⟩

theorem keepsBounce_deliverLine (u : InterruptUnit) (irq : UInt8) : KeepsBounce u (u.deliverLine irq) := by
  unfold InterruptUnit.deliverLine
  split
  · exact keepsBounce_serve _ _ _
  · exact ⟨rfl, rfl⟩

theorem keepsBounce_deliver (u : InterruptUnit) : KeepsBounce u u.deliver := by
  unfold InterruptUnit.deliver
  induction InterruptUnit.lines generalizing u with
  | nil => exact ⟨rfl, rfl⟩
  | cons irq lines ih =>
    have hline := keepsBounce_deliverLine u irq
    obtain ⟨haddress, hbounce⟩ := ih (u.deliverLine irq)
    exact ⟨haddress.trans hline.1, hbounce.trans hline.2⟩

theorem core_unit {f : InterruptUnit → InterruptUnit}
    (h : KeepsBounce m.interrupts (f m.interrupts)) : (m.unit f).core = m.core := by
  obtain ⟨haddress, hbounce⟩ := h
  simp only [Simulated.core, Simulated.unit, haddress, hbounce]

/-- A change of the unit that moves no memory, and then what is pending goes out. -/
theorem core_deliver {f : InterruptUnit → InterruptUnit} (h : ∀ u, (f u).memory = u.memory) :
    (m.unit fun u => (f u).deliver).core = m.core := by
  obtain ⟨haddress, hbounce⟩ := keepsBounce_deliver (f m.interrupts)
  rw [h] at haddress hbounce
  exact core_unit (f := fun u => (f u).deliver) ⟨haddress, hbounce⟩

theorem core_signal : (signal m).core = m.core := by
  unfold signal
  split
  · rfl
  · exact core_deliver (f := fun u => u.raise m.fdc.irq) fun _ => rfl

theorem core_fire (irq : UInt8) (count : Nat) : (m.unit (·.fire irq count)).core = m.core := by
  have hfire : ∀ u : InterruptUnit, KeepsBounce u (u.fire irq count) := by
    induction count with
    | zero => exact fun _ => ⟨rfl, rfl⟩
    | succ count ih =>
      intro u
      obtain ⟨haddress, hbounce⟩ := keepsBounce_deliver (u.raise irq)
      obtain ⟨haddress', hbounce'⟩ := ih (u.raise irq).deliver
      exact ⟨haddress'.trans haddress, hbounce'.trans hbounce⟩
  exact core_unit (f := fun u => u.fire irq count) (hfire m.interrupts)

theorem window_eq_some {port i : UInt16} (h : m.window port = some i.toNat) : port = m.fdc.base + i := by
  unfold window at h
  split at h
  · rename_i hin
    simp only [Bool.and_eq_true, decide_eq_true_eq] at hin
    simp only [Option.some.injEq] at h
    apply UInt16.toNat_inj.mp
    have hport := port.toNat_lt
    rw [UInt16.toNat_add]
    omega
  · exact absurd h (by simp)

theorem core_input {port : UInt16} (h : port ≠ Port.data m.fdc.base) :
    (m.input port).2.core = m.core := by
  have hfive : m.countAccess.window port ≠ some 5 := fun hw => h (window_eq_some (i := 5) hw)
  dsimp only [input]
  split
  case h_5 hw => exact absurd hw hfive
  all_goals rfl

theorem core_step {c : Platform.Call} (h : Incidental m.fdc.base c) :
    (m.step c).2.core = m.core := by
  cases c with
  | input port => exact core_input h
  | output port value => exact h.elim
  | channel number c =>
    have hnumber : fdcChannel ≠ number := fun he => h he.symm
    simp [step, channelStep, Simulated.core, Simulated.setChannel, countAccess, hnumber]
  | unmaskLine irq => exact core_deliver (f := fun u => u.unmask irq) fun _ => rfl
  | resume wasEnabled =>
    cases wasEnabled with
    | false => rfl
    | true => exact core_deliver (f := fun u => { u with enabled := true }) fun _ => rfl
  | memory c =>
    cases c with
    | store bytes => exact h.elim
    | _ => rfl
  | _ => rfl

theorem ensures_incidental {p : Routine α} (hp : p.Only (Incidental k.fdc.base)) :
    p.Ensures surroundings (fun _ k' => k' = k) k := by
  refine hp.ensures (K := fun k' => k' = k) ?_ rfl
  rintro k' c hc rfl
  refine ⟨trivial, ?_⟩
  rintro r k'' ⟨m, rfl, -, rfl⟩
  exact core_step hc

/-- The controller answers at a base address, with room for its window. -/
structure At (base : UInt16) (k : Core) : Prop where
  present : k.fdc.present = true
  base_eq : k.fdc.base = base
  room : base.toNat ≤ 0xFFF8

/-- The registers are as they were, and so are the heads and what is stored. -/
structure Same (k k' : Core) : Prop where
  present : k'.fdc.present = k.fdc.present
  base_eq : k'.fdc.base = k.fdc.base
  output_eq : k'.fdc.output = k.fdc.output
  nonDma : k'.fdc.nonDma = k.fdc.nonDma
  cylinders : k'.fdc.cylinders = k.fdc.cylinders
  disk : k'.fdc.disk = k.fdc.disk
  faults : k'.faults = k.faults
  bounce : k'.bounce.size = k.bounce.size

theorem Same.refl (k : Core) : Same k k := ⟨rfl, rfl, rfl, rfl, rfl, rfl, rfl, rfl⟩

theorem Same.trans {k₁ k' : Core} (h : Same k k₁) (h' : Same k₁ k') : Same k k' :=
  ⟨h'.present.trans h.present, h'.base_eq.trans h.base_eq, h'.output_eq.trans h.output_eq,
    h'.nonDma.trans h.nonDma, h'.cylinders.trans h.cylinders, h'.disk.trans h.disk,
    h'.faults.trans h.faults, h'.bounce.trans h.bounce⟩

theorem Same.inReset {k' : Core} (h : Same k k') : k'.fdc.inReset = k.fdc.inReset := by
  unfold Fdc.inReset
  rw [h.output_eq]

theorem At.same {k' : Core} (hat : At base k) (h : Same k k') : At base k' :=
  ⟨h.present.trans hat.present, h.base_eq.trans hat.base_eq, hat.room⟩

theorem At.window (h : At base m.core) (i : UInt16) (hi : i < 8) :
    m.window (base + i) = some i.toNat := by
  obtain ⟨hpresent, rfl, hroom⟩ := h
  change m.fdc.present = true at hpresent
  change m.fdc.base.toNat ≤ 0xFFF8 at hroom
  have hlt : i.toNat < 8 := hi
  have hadd : (m.core.fdc.base + i).toNat = m.fdc.base.toNat + i.toNat := by
    rw [UInt16.toNat_add]
    exact Nat.mod_eq_of_lt (by simp only [Simulated.core]; omega)
  unfold Simulated.window
  rw [hadd, hpresent]
  simp [hlt]

def status (k : Core) : MainStatus := ⟨k.fdc.status k.faults⟩

theorem ensures_readStatus (h : At base k) :
    (Fifo.readStatus base).Ensures surroundings (fun s k' => k' = k ∧ s = k.status) k := by
  refine Program.ensures_bind.mpr (ensures_perform ?_)
  rintro m rfl
  have hwindow : m.countAccess.window (Port.mainStatus base) = some 4 := h.window 4 (by decide)
  simp only [step, input, hwindow]
  exact ⟨rfl, rfl⟩

theorem ensures_giveByte (h : At base k) : (Platform.input (Port.data base)).Ensures surroundings
    (fun b k' => ∃ m : Simulated, m.core = k ∧ b = m.giveByte.1 ∧ k' = m.giveByte.2.core) k := by
  apply ensures_perform
  rintro m rfl
  have hwindow : m.countAccess.window (Port.data base) = some 5 := h.window 5 (by decide)
  simp only [step, input, hwindow]
  exact ⟨m.countAccess, rfl, rfl, rfl⟩

/-- A write within the window of the controller gets to the register that lies there. -/
theorem At.output (h : At base m.core) (i : UInt16) (hi : i < 8) (value : UInt8) :
    let noted := m.notingWrite (base + i) value
    m.output (base + i) value = match some i.toNat with
      | some 2 => noted.writeOutput value
      | some 5 => noted.acceptByte value
      | some 7 => { noted with fdc := { noted.fdc with rate := value } }
      | _ => noted := by
  intro noted
  have hwindow : noted.window (base + i) = some i.toNat := h.window i hi
  rw [← hwindow]
  rfl

theorem ensures_acceptByte (h : At base k) (b : UInt8) :
    (Platform.output (Port.data base) b).Ensures surroundings
      (fun _ k' => ∃ m : Simulated, m.core = k ∧ k' = (m.acceptByte b).core) k := by
  apply ensures_perform
  rintro m rfl
  exact ⟨m.notingWrite (Port.data base) b, rfl, congrArg Simulated.core (h.output 5 (by decide) b)⟩

theorem ensures_writeOutput (h : At base k) (v : UInt8) :
    (Platform.output (Port.digitalOutput base) v).Ensures surroundings
      (fun _ k' => ∃ m : Simulated, m.core = k ∧ k' = (m.writeOutput v).core) k := by
  apply ensures_perform
  rintro m rfl
  exact ⟨m.notingWrite (Port.digitalOutput base) v, rfl, congrArg Simulated.core (h.output 2 (by decide) v)⟩

theorem ensures_writeRate (h : At base k) (v : UInt8) :
    (Platform.output (Port.configControl base) v).Ensures surroundings
      (fun _ k' => k' = { k with fdc := { k.fdc with rate := v } }) k := by
  apply ensures_perform
  rintro m rfl
  exact congrArg Simulated.core (h.output 7 (by decide) v)

end Core
end Diskette
