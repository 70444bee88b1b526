import Diskette.Proofs.Simulated.Perform

/-!
Discovery of a simulated controller, whatever it was left in the midst of. Whatever line and channel are
proposed, it is found, and is between two commands. A controller that looks busy is reset, and owes
nothing after that; one that looks idle is not, and keeps the interrupts that are yet to be sensed.
-/
namespace Diskette

open Simulated
open Diskette.Core (surroundings)

variable {c c' : Controller} {k k' : Core} {placement : Placement}

/-- In the midst of a command. -/
def Simulated.Fdc.Midway (f : Fdc) : Prop := f.partialCommand ≠ [] ∨ f.stage ≠ .command

instance (f : Fdc) : Decidable f.Midway := inferInstanceAs (Decidable (_ ∨ _))

theorem not_midway_iff {f : Fdc} : ¬ f.Midway ↔ f.partialCommand = [] ∧ f.stage = .command := by
  rw [Simulated.Fdc.Midway, not_or, Decidable.not_not, Decidable.not_not]

namespace Core

/-- What is yet to be sensed once the output register has been written by a probe. Out of reset, the
controller owes an interrupt for each drive. -/
def wakened (k : Core) : List (UInt8 × UInt8) :=
  k.fdc.pending ++ if k.fdc.inReset then k.owed else []

/-- What is yet to be sensed after discovery. -/
def leftOver (k : Core) : List (UInt8 × UInt8) := if k.fdc.Midway then [] else k.wakened

theorem leftOver_eq_nil_iff :
    k.leftOver = [] ↔ k.fdc.Midway ∨ k.fdc.inReset = false ∧ k.fdc.pending = [] := by
  unfold leftOver
  split
  · rename_i hmidway
    exact ⟨fun _ => .inl hmidway, fun _ => rfl⟩
  · rename_i hmidway
    have howed : k.owed ≠ [] := by simp [owed, Drive.all]
    rw [or_iff_right hmidway, wakened, List.append_eq_nil_iff, and_comm]
    cases k.fdc.inReset with
    | true => simp [howed]
    | false => simp

end Core

/-- A controller whose registers a probe has set up, and which is in the midst of what it was in. -/
structure Probed (placement : Placement) (k : Core) (c : Controller) (k' : Core) : Prop where
  linked : Linked c k'
  untold : c.specified = none
  polled : c.path = .port
  channel : c.channel = placement.channel.filter Placement.usableChannel
  drive : c.drive = .a
  kept : Kept k k'
  stage : k'.fdc.stage = k.fdc.stage
  partialCommand : k'.fdc.partialCommand = k.fdc.partialCommand
  pending : k'.fdc.pending = k.wakened

/-- A controller that has been found, and is between two commands. -/
structure Found (placement : Placement) (k : Core) (c : Controller) (k' : Core) : Prop where
  linked : Linked c k'
  whole : k'.fdc.partialCommand = []
  command : k'.fdc.stage = .command
  told : ∀ path, c.specified = some path → k'.fdc.nonDma = (path == .port)
  pending : k'.fdc.pending = k.leftOver
  routed : Routed c
  channel : c.channel = placement.channel.filter Placement.usableChannel
  drive : c.drive = .a
  kept : Kept k k'

namespace Found

theorem idle (h : Found placement k c k') : Core.Idle c.base k' := h.linked.idle h.whole h.command

theorem settled (h : Found placement k c k') (hquiet : k.leftOver = []) : Settled c k' :=
  ⟨h.linked, h.whole, h.command, h.pending.trans hquiet, h.told⟩

theorem turned {c₁ : Controller} {k₁ : Core} (h : Found placement k c₁ k₁)
    (hturned : Turned c₁ k₁ c' k') (hdrive : c'.drive = c₁.drive) : Found placement k c' k' := by
  have hlinked := hturned.linked h.linked
  have hkept := hturned.kept
  obtain ⟨hwhole, hcommand⟩ := hturned.stage
  obtain ⟨output, -, -, rfl⟩ := hturned.output
  exact ⟨hlinked, hwhole.trans h.whole, hcommand.trans h.command,
    fun path hpath => h.told path (hturned.specified ▸ hpath), h.pending, hturned.routed h.routed,
    hturned.channel.trans h.channel, hdrive.trans h.drive, h.kept.trans hkept⟩

end Found

theorem ensures_input_elsewhere {base : UInt16} (h : k.fdc.base = base) (port : UInt16)
    (hport : port ≠ Port.data base) : (Platform.input port).Ensures surroundings (fun _ k' => k' = k) k := by
  refine Core.ensures_incidental (.perform ?_)
  rw [h]
  exact hport

theorem ensures_classify (h : Core.At placement.base k) :
    (Controller.classify placement).Ensures surroundings (Probed placement k) k := by
  have hbefore := ensures_input_elsewhere h.base_eq
  unfold Controller.classify
  refine Program.ensures_bind.mpr ((hbefore _ (by simp [Port.statusA, Port.data])).mono ?_)
  rintro a _ rfl
  refine Program.ensures_bind.mpr ((hbefore _ (by simp [Port.statusB, Port.data])).mono ?_)
  rintro b _ rfl
  refine Program.ensures_bind.mpr ((hbefore _ (by simp [Port.digitalInput, Port.data])).mono ?_)
  rintro input k rfl
  generalize hgate : ((placement.irq.filter Placement.usableIrq).isSome &&
    (placement.channel.filter Placement.usableChannel).isSome) = gate
  have hwrite := Core.ensures_writeOutput_encode h (.firmwareDefault gate)
  refine Program.ensures_bind.mpr (Program.ensures_bind.mpr (hwrite.mono ?_))
  rintro _ k₁ hk₁
  rw [if_neg (by exact Bool.false_ne_true)] at hk₁
  have hprobed : Core.At placement.base k₁ ∧ k₁.fdc.output = (DigitalOutput.firmwareDefault gate).encode ∧
      Kept k k₁ ∧ k₁.fdc.stage = k.fdc.stage ∧ k₁.fdc.partialCommand = k.fdc.partialCommand ∧
      k₁.fdc.pending = k.wakened := by
    subst hk₁
    unfold Core.wakened
    split
    · exact ⟨⟨h.present, h.base_eq, h.room⟩, rfl, ⟨rfl, rfl, rfl, rfl⟩, rfl, rfl, rfl⟩
    · exact ⟨⟨h.present, h.base_eq, h.room⟩, rfl, ⟨rfl, rfl, rfl, rfl⟩, rfl, rfl, (List.append_nil _).symm⟩
  clear hk₁
  obtain ⟨hat, houtput, hkept, hstage, hpartial, hpending⟩ := hprobed
  refine Program.ensures_bind.mpr ((Core.ensures_readStatus hat).mono ?_)
  rintro _ _ ⟨rfl, -⟩
  refine Program.ensures_bind.mpr
    ((ensures_input_elsewhere hat.base_eq _ (by simp [Port.digitalOutput, Port.data])).mono ?_)
  rintro readBack k₁ rfl
  have hline : (Controller.openLine (placement.irq.filter Placement.usableIrq)).Only
      (Core.Incidental k₁.fdc.base) := by
    unfold Controller.openLine
    split
    · exact .bind (.perform (by trivial)) fun _ => .done
    · exact .done
  refine Program.ensures_bind.mpr ((Core.ensures_incidental hline).mono ?_)
  rintro line _ rfl
  exact ⟨⟨hat, houtput, rfl⟩, rfl, rfl, rfl, rfl, hkept, hstage, hpartial, hpending⟩

/-- What a controller that is there tells of its state is no floating bus. -/
theorem status_ne_floating (hf : k.faults.Harmless) : k.status.bits ≠ Controller.floating := by
  unfold Core.status Fdc.status
  rw [hf.commandLimit, hf.portLimit, hf.withholdResults]
  split
  · decide
  · cases k.fdc.stage with
    | command => cases k.fdc.partialCommand <;> simp +decide
    | _ => simp +decide

theorem ensures_probe (h : Core.At placement.base k) (hf : k.faults.Harmless) :
    (Controller.probe placement).Ensures surroundings
      (fun found k' => ∃ c, found = some c ∧ Probed placement k c k') k := by
  have hinput : (Platform.input (Port.mainStatus placement.base)).Ensures surroundings
      (fun b k' => b = k.status.bits ∧ k' = k) k := by
    have hread := Core.ensures_readStatus h
    apply Program.Ensures.mono (p := Platform.input _) (Program.ensures_bind.mp hread)
    rintro b k' ⟨rfl, hb⟩
    exact ⟨congrArg MainStatus.bits hb, rfl⟩
  refine Program.ensures_bind.mpr (hinput.mono ?_)
  rintro _ k' ⟨rfl, rfl⟩
  rw [Program.ensures_ite, if_neg (status_ne_floating hf)]
  refine Program.ensures_bind.mpr ((ensures_classify h).mono ?_)
  intro c k' hprobed
  exact ⟨c, rfl, hprobed⟩

/-- What a probe has found is reset if it looks busy, and only then. -/
theorem ensures_resetUnready (h : Probed placement k c k') (hf : k.faults.Harmless) :
    Operation.Ensures surroundings Controller.resetUnready
      (fun _ c'' k'' => Found placement k c'' k'') c k' := by
  have hf' : k'.faults.Harmless := h.kept.faults ▸ hf
  have hlimit : k'.faults.commandLimit ≠ some 0 := by simp [hf'.commandLimit]
  have hpolled : Routed c := fun hpath => DataPath.noConfusion (h.polled.symm.trans hpath)
  simp only [Controller.resetUnready, Operation.mainStatus, Operation.ensures_bind,
    Operation.ensures_get, Operation.ensures_lift, Operation.ensures_ite, Operation.ensures_log,
    Operation.ensures_pure]
  apply (Core.ensures_readStatus h.linked.toAt).mono
  rintro _ k' ⟨rfl, rfl⟩
  by_cases hmidway : k.fdc.Midway
  · have hunready : (k'.status.busy || !k'.status.canWrite) = true := by
      refine Decidable.byContradiction fun hready => ?_
      simp only [Bool.or_eq_true, Bool.not_eq_true', not_or, Bool.not_eq_false, Bool.not_eq_true]
        at hready
      obtain ⟨hwhole, hcommand⟩ := idle_of_status hf'.commandLimit hready.2 hready.1
      rcases hmidway with hpartial | hstage
      · exact hpartial (h.partialCommand.symm.trans hwhole)
      · exact hstage (h.stage.symm.trans hcommand)
    rw [if_pos hunready]
    have hlog : (Platform.log c.base (.foundUnready k'.status)).Only (Core.Incidental k'.fdc.base) :=
      .perform (by trivial)
    apply (Core.ensures_incidental hlog).mono
    rintro _ k' rfl
    apply (ensures_reset_simulated h.linked.toAt h.linked.outOfReset hlimit).mono
    intro _ c₁ k₁ hrevived
    have hsettled : Settled c₁ k₁ := hrevived.harmless hf'
    have hcarried : Carried c c₁ := carried_of_setting hrevived.setting
    refine ⟨hsettled.toLinked, hsettled.whole, hsettled.command, hsettled.told, ?_,
      hcarried.routed hpolled, hcarried.channel.trans h.channel, hcarried.drive.trans h.drive,
      h.kept.trans hrevived.kept⟩
    rw [hsettled.quiet, Core.leftOver, if_pos hmidway]
  · obtain ⟨hwhole, hcommand⟩ := not_midway_iff.mp hmidway
    have hidle := h.linked.idle (h.partialCommand.trans hwhole) (h.stage.trans hcommand)
    rw [hidle.status hlimit, if_neg (by decide)]
    refine ⟨h.linked, hidle.whole, hidle.command, ?_, ?_, hpolled, h.channel, h.drive, h.kept⟩
    · intro path htold
      cases h.untold.symm.trans htold
    · rw [h.pending, Core.leftOver, if_neg hmidway]

theorem ensures_chooseChannel_simulated (h : Found placement k c k') :
    Operation.Ensures surroundings Controller.chooseChannel
      (fun _ c'' k'' => Found placement k c'' k'') c k' := by
  simp only [Controller.chooseChannel, Operation.ensures_bind, Operation.ensures_get,
    Operation.ensures_ite, Operation.ensures_pure]
  split
  · apply (turns_enableDma h.linked).mono
    rintro (cause | _) c₁ k₁ ⟨hturned, hdrive⟩
    · have hlog : (Platform.log c₁.base (.stayingPolled cause)).Only (Core.Incidental k₁.fdc.base) :=
        .perform (by trivial)
      rw [Operation.ensures_log]
      apply (Core.ensures_incidental hlog).mono
      rintro _ _ rfl
      exact h.turned hturned hdrive
    · exact h.turned hturned hdrive
  · exact h

theorem ensures_bringUp (h : Probed placement k c k') (hf : k.faults.Harmless) :
    Operation.Ensures surroundings Controller.bringUp
      (fun _ c'' k'' => Found placement k c'' k'') c k' := by
  refine Operation.ensures_bind.mpr ((ensures_resetUnready h hf).mono ?_)
  intro _ c₁ k₁ hready
  refine Operation.ensures_bind.mpr ((ensures_chooseChannel_simulated hready).mono ?_)
  intro _ c₂ k₂ hfound
  have hlog : (Platform.log c₂.base (.found c₂.irq c₂.channel c₂.features c₂.path)).Only
      (Core.Incidental k₂.fdc.base) := .perform (by trivial)
  rw [Operation.ensures_bind, Operation.ensures_get, Operation.ensures_log]
  apply (Core.ensures_incidental hlog).mono
  rintro _ _ rfl
  exact hfound

/-- A controller that no fault hinders is found, whatever state it is in. -/
theorem ensures_discover (h : Core.At placement.base k) (hf : k.faults.Harmless) :
    (Controller.discover placement).Ensures surroundings
      (fun found k' => ∃ c, found = some c ∧ Found placement k c k') k := by
  refine Program.ensures_bind.mpr ((ensures_probe h hf).mono ?_)
  rintro _ k' ⟨c, rfl, hprobed⟩
  refine Program.ensures_bind.mpr (Program.Ensures.mono (ensures_bringUp hprobed hf) ?_)
  rintro ⟨_, c'⟩ k'' hfound
  exact ⟨c', rfl, hfound⟩

theorem discover_simulated (m : Simulated) (placement : Placement) (h : Core.At placement.base m.core)
    (hf : m.faults.Harmless) : ∃ c m',
    (Controller.discover placement).run Simulated.machine m = (some c, m') ∧
      Found placement m.core c m'.core := by
  have hdiscover : (Controller.discover placement).Ensures surroundings _ m.core :=
    ensures_discover h hf
  obtain ⟨c, hc, hfound⟩ := Program.Ensures.run Core.keepsTo hdiscover
  exact ⟨c, _, Prod.ext hc rfl, hfound⟩

/-- The controller of a fresh machine is found. -/
theorem discover_fresh (irq channel : Option UInt8) : ∃ c m,
    (Controller.discover ⟨0x3F0, irq, channel⟩).run Simulated.machine {} = (some c, m) ∧
      Found ⟨0x3F0, irq, channel⟩ ({} : Simulated).core c m.core :=
  discover_simulated {} _ ⟨rfl, rfl, (by decide : (0x3F0 : UInt16).toNat ≤ 0xFFF8)⟩ ⟨rfl, rfl, rfl, rfl, rfl⟩

end Diskette
