import Diskette.Proofs.Prompt.Delivery
import Diskette.Proofs.Simulated.Transfers

/-!
The simulated machine left to itself, and what of it bears on interrupts and on the time. Most of what the hardware
does is not heard of at all; for the rest it signals, once.
-/
namespace Diskette

open Simulated InterruptUnit

variable {α : Type} {m m' : Simulated} {base : UInt16} {k : Core} {p : Routine α} {x : Extent}

/-- The time, and what the interrupts of the controller depend on. -/
structure Hearing where
  now : Nat
  irq : UInt8
  silent : Bool
  masked : UInt16
  pending : UInt16
  enabled : Bool
  vectors : UInt8 → Option Handler
  counters : Array FireCounter

namespace Hearing

/-- The controller has raised its line, and nothing is delivered yet. -/
def rung (h : Hearing) : Hearing := { h with pending := h.pending ||| lineBit h.irq }

end Hearing

namespace Simulated

def hearing (m : Simulated) : Hearing :=
  ⟨m.now, m.fdc.irq, m.faults.silent, m.interrupts.masked, m.interrupts.pending, m.interrupts.enabled,
    m.interrupts.vectors, m.interrupts.memory.counters⟩

/-- Either nothing is heard of what happens, or it comes with one signal. -/
inductive Sounds (m : Simulated) : Simulated → Prop
  | quiet {m' : Simulated} : m'.hearing = m.hearing → Sounds m m'
  | signals {m₁ : Simulated} : m₁.hearing = m.hearing → m₁.fdc.gateOpen = m.fdc.gateOpen → Sounds m (signal m₁)

theorem hearing_moveBytes (write : Bool) (address : UInt32) (count : Nat) :
    (m.moveBytes write x address count).hearing = m.hearing := by
  cases write <;> rfl

theorem gateOpen_moveBytes (write : Bool) (address : UInt32) (count : Nat) :
    (m.moveBytes write x address count).fdc.gateOpen = m.fdc.gateOpen := by
  cases write <;> rfl

/-- The channel of the controller waits for it to move bytes this way, and the gate is open. -/
def Awaited (m : Simulated) (write : Bool) : Prop :=
  (m.fdc.gateOpen && (m.channels fdcChannel).readyFor (if write then .fromMemory else .toMemory)) = true

theorem channelTransfer_of_awaited {write : Bool} (h : m.Awaited write) :
    ∃ m₁ : Simulated, m₁.hearing = m.hearing ∧ m₁.fdc.gateOpen = m.fdc.gateOpen ∧
      m.channelTransfer write x = signal m₁ := by
  refine ⟨_, ?_, ?_, if_pos h⟩
  · exact hearing_moveBytes (m := m) (x := x) write _ _
  · exact gateOpen_moveBytes (m := m) (x := x) write _ _

theorem sounds_channelTransfer (write : Bool) (x : Extent) : m.Sounds (m.channelTransfer write x) := by
  by_cases hawaited : m.Awaited write
  · obtain ⟨m₁, hhearing, hgate, hsignal⟩ := channelTransfer_of_awaited (x := x) hawaited
    exact hsignal ▸ .signals hhearing hgate
  · have hstuck : m.channelTransfer write x = { m with fdc := { m.fdc with stage := .stuck } } := if_neg hawaited
    exact hstuck ▸ .quiet rfl

theorem sounds_obey (order : Order) : m.Sounds (m.obey order) := by
  cases order with
  | recalibrate | seek | step => exact .signals rfl rfl
  | senseInterrupt =>
    dsimp only [obey]
    split <;> exact .quiet rfl
  | transfer write x =>
    dsimp only [obey, startTransfer]
    split
    · exact .quiet rfl
    · exact sounds_channelTransfer write x
  | _ => exact .quiet rfl

theorem Sounds.of_hearing {m₀ : Simulated} (h : Sounds m m') (hhearing : m.hearing = m₀.hearing)
    (hgate : m.fdc.gateOpen = m₀.fdc.gateOpen) : Sounds m₀ m' := by
  cases h with
  | quiet hquiet => exact .quiet (hquiet.trans hhearing)
  | signals hquiet hopen => exact .signals (hquiet.trans hhearing) (hopen.trans hgate)

theorem sounds_acceptByte (value : UInt8) : m.Sounds (m.acceptByte value) := by
  unfold acceptByte
  split
  · exact .quiet rfl
  split
  · unfold takeCommandByte
    dsimp only
    split
    · exact (sounds_obey _).of_hearing rfl rfl
    · exact .quiet rfl
  · dsimp only
    split <;> exact .quiet rfl
  · exact .quiet rfl

theorem hearing_giveByte : m.giveByte.2.hearing = m.hearing := by
  unfold giveByte
  split
  · rfl
  split
  · split <;> rfl
  · rfl
  · rfl

/-- A register write that resets nothing is not heard of; on the way out of a reset the controller signals. -/
theorem hearing_writeOutput {value : UInt8} (hout : m.fdc.inReset = false) :
    (m.writeOutput value).hearing = m.hearing := by
  unfold writeOutput
  dsimp only
  split
  · rfl
  · rw [hout, if_neg Bool.false_ne_true]
    rfl

theorem hearing_input (m : Simulated) (port : UInt16) : (m.input port).2.hearing = m.hearing := by
  unfold input
  dsimp only
  split
  case h_5 => exact hearing_giveByte
  all_goals rfl

/-- With the flag clear, a signal leaves the line pending. -/
theorem hearing_signal (hgate : m.fdc.gateOpen = true) (hsilent : m.faults.silent = false)
    (hclear : m.interrupts.enabled = false) : (signal m).hearing = m.hearing.rung := by
  have hraised : (m.interrupts.raise m.fdc.irq).deliver = m.interrupts.raise m.fdc.irq := deliver_of_suppressed hclear
  unfold signal
  rw [hgate, hsilent]
  simp only [Simulated.unit, hraised]
  rfl

/-- The line of the controller and its faults stay, no counter goes, and nothing is held back without need. -/
structure Outlasts (m m' : Simulated) : Prop where
  irq : m'.fdc.irq = m.fdc.irq
  silent : m'.faults.silent = m.faults.silent
  counters : m.interrupts.memory.counters.size ≤ m'.interrupts.memory.counters.size
  alert : m.interrupts.Alert → m'.interrupts.Alert

theorem Outlasts.refl (m : Simulated) : Outlasts m m := ⟨rfl, rfl, Nat.le_refl _, id⟩

theorem Outlasts.trans {m₁ : Simulated} (h : Outlasts m m₁) (h' : Outlasts m₁ m') : Outlasts m m' :=
  ⟨h'.irq.trans h.irq, h'.silent.trans h.silent, Nat.le_trans h.counters h'.counters, fun hm => h'.alert (h.alert hm)⟩

theorem Outlasts.of_hearing (h : m'.hearing = m.hearing) : Outlasts m m' := by
  have hmasked : m'.interrupts.masked = m.interrupts.masked := congrArg Hearing.masked h
  have hpending : m'.interrupts.pending = m.interrupts.pending := congrArg Hearing.pending h
  have henabled : m'.interrupts.enabled = m.interrupts.enabled := congrArg Hearing.enabled h
  refine ⟨congrArg Hearing.irq h, congrArg Hearing.silent h, ?_, fun hm => ?_⟩
  · exact Nat.le_of_eq (congrArg (fun h => h.counters.size) h).symm
  · intro hflag irq hirq hdue
    refine hm (henabled ▸ hflag) irq hirq ?_
    simpa only [Due, isPending, isMasked, hmasked, hpending] using hdue

theorem Outlasts.delivered (f : InterruptUnit → InterruptUnit)
    (hcounters : (f m.interrupts).memory.counters = m.interrupts.memory.counters) :
    Outlasts m (m.unit fun u => (f u).deliver) := by
  have hkept := (Stirs.refl (u := f m.interrupts)).deliver.steadfast
  refine ⟨rfl, rfl, ?_, fun _ => alert_deliver _⟩
  have hsize : (f m.interrupts).deliver.memory.counters.size = m.interrupts.memory.counters.size :=
    hkept.lines.trans (congrArg Array.size hcounters)
  exact Nat.le_of_eq hsize.symm

theorem outlasts_signal : Outlasts m (signal m) := by
  unfold signal
  split
  · exact .refl m
  · exact .delivered (·.raise m.fdc.irq) rfl

theorem Sounds.outlasts (h : Sounds m m') : Outlasts m m' := by
  cases h with
  | quiet hhearing => exact .of_hearing hhearing
  | signals hhearing => exact (Outlasts.of_hearing hhearing).trans outlasts_signal

theorem outlasts_writeOutput (value : UInt8) : Outlasts m (m.writeOutput value) := by
  unfold writeOutput
  dsimp only
  split
  · exact .of_hearing rfl
  split
  · exact (Outlasts.of_hearing (by rfl)).trans outlasts_signal
  · exact .of_hearing rfl

theorem outlasts_output (port : UInt16) (value : UInt8) : Outlasts m (m.output port value) := by
  have hlogged : Outlasts m { m.countAccess with writes := (port, value) :: m.writes } := .of_hearing rfl
  unfold output
  dsimp only
  split
  · exact hlogged.trans (outlasts_writeOutput value)
  · exact hlogged.trans (sounds_acceptByte value).outlasts
  · exact .of_hearing rfl
  · exact .of_hearing rfl

theorem outlasts_step (m : Simulated) (call : Platform.Call) : Outlasts m (m.step call).2 := by
  cases call with
  | input port => exact .of_hearing (hearing_input m port)
  | output port value => exact outlasts_output port value
  | maskLine irq =>
    refine ⟨rfl, rfl, Nat.le_refl _, fun hm henabled i hi hdue => ?_⟩
    exact hm henabled i hi ((handled_mask m.interrupts irq).due hdue)
  | unmaskLine irq => exact .delivered (·.unmask irq) rfl
  | suppress => exact ⟨rfl, rfl, Nat.le_refl _, fun _ => nofun⟩
  | resume wasEnabled =>
    cases wasEnabled with
    | false => exact .refl m
    | true => exact .delivered (fun u => { u with enabled := true }) rfl
  | memory call =>
    refine ⟨rfl, rfl, ?_, id⟩
    change m.interrupts.memory.counters.size ≤ (m.interrupts.memory.step call).2.counters.size
    cases call with
    | createLine => exact Nat.le_trans (Nat.le_succ _) (Nat.le_of_eq (Array.size_push _).symm)
    | acknowledge => exact Nat.le_of_eq (Array.size_modify ..).symm
    | _ => exact Nat.le_refl _
  | _ => exact ⟨rfl, rfl, Nat.le_refl _, id⟩

/-- The machine by itself: every call is answered as it answers it, and nothing comes in between. -/
def alone : Surroundings Platform Simulated where
  permits _ _ := True
  follows m call r m' := (m.step call).1 = r ∧ (m.step call).2 = m'

theorem keepsTo_alone : machine.KeepsTo alone id := fun _ _ => ⟨rfl, rfl⟩

theorem ensures_alone_call {call : Platform.Call} {next : Platform.Reply call → Routine α} {Q : α → Simulated → Prop} :
    (Program.call call next).Ensures alone Q m ↔ (next (m.step call).1).Ensures alone Q (m.step call).2 := by
  constructor
  · exact fun h => h.2 _ _ ⟨rfl, rfl⟩
  · intro h
    refine ⟨trivial, ?_⟩
    rintro _ _ ⟨rfl, rfl⟩
    exact h

/-- What is so in surroundings that the machine keeps to is so of the machine. -/
theorem ensures_alone_of {σ : Type} {E : Surroundings Platform σ} {view : Simulated → σ}
    (hE : machine.KeepsTo E view) {Q : α → σ → Prop} (h : p.Ensures E Q (view m)) :
    p.Ensures alone (fun a m' => Q a (view m')) m := by
  induction p generalizing m with
  | done a => exact h
  | call call next ih => exact ensures_alone_call.mpr (ih _ (h.2 _ _ (hE call m)))

/-- What is so of the controller whatever happens around it. -/
theorem ensures_alone_core {Q : α → Core → Prop} (h : p.Ensures Core.surroundings Q m.core) :
    p.Ensures alone (fun a m' => Q a m'.core) m := ensures_alone_of Core.keepsTo h

theorem ensures_outlasts (p : Routine α) (m : Simulated) : p.Ensures alone (fun _ m' => Outlasts m m') m := by
  refine (Program.only_true p).ensures (K := Outlasts m) ?_ (.refl m)
  rintro m₁ call - hm₁
  refine ⟨trivial, ?_⟩
  rintro _ _ ⟨rfl, rfl⟩
  exact hm₁.trans (outlasts_step m₁ call)

/-- The machine is as it was, as far as the controller and its interrupts go. -/
structure Alike (m m' : Simulated) : Prop where
  core : m'.core = m.core
  hearing : m'.hearing = m.hearing

theorem Alike.refl (m : Simulated) : Alike m m := ⟨rfl, rfl⟩

theorem Alike.trans {m₁ : Simulated} (h : Alike m m₁) (h' : Alike m₁ m') : Alike m m' :=
  ⟨h'.core.trans h.core, h'.hearing.trans h.hearing⟩

/-- Calls that nothing is heard of. -/
def Unheard : Platform.Call → Prop
  | .input _ | .channel _ _ | .log _ _ => True
  | .memory (.createLine _) | .memory (.acknowledge _) => False
  | .memory _ => True
  | _ => False

theorem hearing_step {call : Platform.Call} (h : Unheard call) : (m.step call).2.hearing = m.hearing := by
  cases call with
  | input port => exact hearing_input m port
  | memory call => cases call <;> first | exact h.elim | rfl
  | channel | log => rfl
  | _ => exact h.elim

theorem ensures_unheard (hp : p.Only Unheard) : p.Ensures alone (fun _ m' => m'.hearing = m.hearing) m := by
  refine hp.ensures (K := fun m' : Simulated => m'.hearing = m.hearing) ?_ rfl
  rintro m₁ call hcall hm₁
  refine ⟨trivial, ?_⟩
  rintro _ _ ⟨rfl, rfl⟩
  exact (hearing_step hcall).trans hm₁

end Simulated
end Diskette
