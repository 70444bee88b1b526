import Diskette.Proofs.Recovery

/-!
Discovery on a machine that someone else has used. A controller that is found busy is reset, and is as
good as new. One that looks idle is taken as it is, with every interrupt that it has not been asked
about: also with those that it owes because the probe has let it out of a reset.
-/
namespace Diskette

open Simulated
open Diskette.Core (surroundings)

variable {s : Station} {m : Simulated} {irq channel : Option UInt8}

/-- Nothing is left of a previous owner, and a seek gets where it is sent. -/
structure Station.TakenOver (s : Station) : Prop where
  idle : s.machine.fdc.idle = true
  quiet : s.machine.fdc.pending = []
  seeks : ∀ cylinder, ∃ report s', s.perform (Operation.execute (.seek cylinder)) = (.ok report, s') ∧
    report.result = [0x20, cylinder] ∧ s'.controller.cylinder = cylinder

theorem idle_of_core {base : UInt16} (h : Core.Idle base m.core) : m.fdc.idle = true := by
  have hstage : m.fdc.stage = .command := h.command
  have hwhole : m.fdc.partialCommand = [] := h.whole
  have hreset : m.fdc.inReset = false := h.outOfReset
  unfold Fdc.idle
  rw [hstage, hwhole, hreset]
  rfl

/-- A settled controller on its first drive does what it is asked. -/
theorem takenOver_of_settled (h : Settled s.controller s.machine.core)
    (hf : s.machine.faults.Harmless) (hdrive : s.controller.drive = .a) : s.TakenOver := by
  refine ⟨idle_of_core h.idle, h.quiet, fun cylinder => ?_⟩
  have hvalid : (Command.seek cylinder).validate = .ok () := rfl
  obtain ⟨report, hreport, -, -, -, hthere⟩ :=
    Station.perform_of_ensures (ensures_execute_simulated h.sound hf hvalid rfl)
  obtain ⟨hresult, hcylinder⟩ := hthere cylinder rfl
  rw [hdrive] at hresult
  exact ⟨report, _, Prod.ext hreport rfl, hresult, hcylinder⟩

theorem takenOver_of_found {placement : Placement}
    (h : Found placement m.core s.controller s.machine.core) (hf : m.faults.Harmless) :
    s.TakenOver ↔ m.fdc.Midway ∨ m.fdc.inReset = false ∧ m.fdc.pending = [] := by
  have hleft : m.core.leftOver = [] ↔ m.fdc.Midway ∨ m.fdc.inReset = false ∧ m.fdc.pending = [] :=
    Core.leftOver_eq_nil_iff
  rw [← hleft]
  constructor
  · intro htaken
    exact h.pending.symm.trans htaken.quiet
  · intro hquiet
    have hfaults : s.machine.faults = m.faults := h.kept.faults
    exact takenOver_of_settled (h.settled hquiet) (hfaults ▸ hf) h.drive

/-- A controller is found in whatever state it was left, and is idle after that. It is taken over if it
was in the midst of a command, or if it was out of reset with no interrupt to be sensed, and in no other
state. -/
theorem takes_over_iff (m : Simulated) (irq channel : Option UInt8) (hpresent : m.fdc.present = true)
    (hroom : m.fdc.base.toNat ≤ 0xFFF8) (hf : m.faults.Harmless) : ∃ c m',
    (Controller.discover ⟨m.fdc.base, irq, channel⟩).run Simulated.machine m = (some c, m') ∧
      m'.fdc.idle = true ∧
      (Station.TakenOver ⟨c, m'⟩ ↔ m.fdc.Midway ∨ m.fdc.inReset = false ∧ m.fdc.pending = []) := by
  obtain ⟨c, m', hrun, hfound⟩ := discover_simulated m ⟨m.fdc.base, irq, channel⟩
    ⟨hpresent, rfl, hroom⟩ hf
  exact ⟨c, m', hrun, idle_of_core hfound.idle, takenOver_of_found (s := ⟨c, m'⟩) hfound hf⟩

/-- A result that someone else has half read is no hindrance. -/
theorem takes_over_half_read : ∃ c m',
    (Controller.discover ⟨0x3F0, some 6, some fdcChannel⟩).run Simulated.machine
        (abandonResult {}) = (some c, m') ∧ Station.TakenOver ⟨c, m'⟩ := by
  obtain ⟨c, m', hrun, -, hiff⟩ := takes_over_iff (abandonResult {}) (some 6) (some fdcChannel) rfl
    (by decide) ⟨rfl, rfl, rfl, rfl, rfl⟩
  exact ⟨c, m', hrun, hiff.mpr (.inl (by decide))⟩

/-- A machine whose controller is held in reset. -/
def Simulated.atReset : Simulated := { fdc := { output := 0 } }

/-- The interrupts that the probe brings about are left over, and the first seek takes one of them for its
own. -/
theorem reset_left_over : ∃ c m',
    (Controller.discover ⟨0x3F0, some 6, some fdcChannel⟩).run Simulated.machine .atReset = (some c, m') ∧
      m'.fdc.pending = [(0xC0, 0), (0xC1, 0), (0xC2, 0), (0xC3, 0)] ∧
      (Station.perform ⟨c, m'⟩ (Operation.execute (.seek 2))).1 =
        .error (.abnormalTermination 0xC0 0 0) := by
  obtain ⟨c, m', hrun, hfound⟩ := discover_simulated .atReset ⟨0x3F0, some 6, some fdcChannel⟩
    ⟨rfl, rfl, (by decide : (0x3F0 : UInt16).toNat ≤ 0xFFF8)⟩ ⟨rfl, rfl, rfl, rfl, rfl⟩
  have hpending : m'.core.fdc.pending = [(0xC0, 0), (0xC1, 0), (0xC2, 0), (0xC3, 0)] := hfound.pending
  have hf : m'.core.faults.Harmless := hfound.kept.faults ▸ ⟨rfl, rfl, rfl, rfl, rfl⟩
  obtain ⟨cause, hfails, rfl⟩ := Station.perform_of_ensures (s := ⟨c, m'⟩)
    (ensures_seek_owing hfound.linked hfound.idle hf hpending (by decide) 2)
  exact ⟨c, m', hrun, hpending, hfails⟩

end Diskette
