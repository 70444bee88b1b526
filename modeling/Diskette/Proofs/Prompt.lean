import Diskette.Proofs.Prompt.Station

/-!
No interrupt is missed. Whatever a driver on a simulated machine has been asked for since its discovery, and whatever
has fired in between: while the DMA path is taken, and no storm has come over the line, each command that interrupts is
ended by its interrupt, in no more time than the motor takes to come up to speed.
-/
namespace Diskette

open Simulated InterruptUnit

variable {α : Type} {code : UInt8} {m m₀ : Simulated} {l : Line} {command : Command} {transfer : Transfer} {s : Station}

/-- The milliseconds that the motor of the selected drive takes, by the output register. -/
def Simulated.spinUp (m : Simulated) : Nat :=
  let output := DigitalOutput.decode m.fdc.output
  if output.motorOn output.drive then 0 else 500

namespace Station

/-- No storm has come over the line of the controller. -/
def Calm (s : Station) : Prop :=
  ∀ l ∈ s.controller.line, (s.machine.interrupts.memory.counter l.id).degraded = false

/-- What is done goes well, by the interrupt and without a notice, and takes the time of the motor. -/
def Punctual (s : Station) (op : Operation α) (outcome : α → Except Failure Report) : Prop :=
  ∃ report, outcome (s.perform op).1 = .ok report ∧ report.endedBy = .interrupt ∧ report.notice = none ∧
    (s.perform op).2.machine.now = s.machine.now + s.machine.spinUp

namespace Attuned

/-- While the DMA path is taken, the line is heard. -/
theorem heeds (h : s.Attuned code) (hpath : s.controller.path = .channel) (hcalm : s.Calm) :
    ∃ l, Relies l s.controller ∧ Heeds l s.machine.now s.machine := by
  obtain ⟨used, howner⟩ := h.owner
  have howned := howner.owned
  obtain ⟨l, hl⟩ := Option.isSome_iff_exists.mp (howned.wired hpath).1
  obtain ⟨hirq, hwired, henrolled⟩ := h.line l hl
  have hhook := howned.hooked.mp hpath
  refine ⟨l, ⟨hl, hpath⟩, rfl, hirq.symm, h.silent, ⟨hwired, h.enabled, (howned.slot l hl).mp hhook, ?_, henrolled,
    hcalm l hl⟩, h.alert h.enabled⟩
  exact howned.unmasked l hl hhook (hcalm l hl)

theorem spinUp_eq (h : s.Attuned code) : s.controller.spinUp = s.machine.spinUp := by
  obtain ⟨store, hstocked⟩ := h.stocked
  have houtput : DigitalOutput.decode s.machine.fdc.output = s.controller.shadow.output := by
    rw [show s.machine.fdc.output = s.controller.shadow.output.encode from hstocked.output_eq,
      DigitalOutput.decode_encode]
  unfold Simulated.spinUp
  rw [houtput]
  rfl

theorem execute (h : s.Attuned code) (hpath : s.controller.path = .channel) (hcalm : s.Calm)
    (hkind : command.kind = .seek) (hvalid : command.validate = .ok ()) :
    s.Punctual (Operation.execute command) id := by
  obtain ⟨l, hrelies, hheeds⟩ := h.heeds hpath hcalm
  obtain ⟨store, hstocked⟩ := h.stocked
  have hend := Program.Ensures.run keepsTo_alone
    (ensures_execute_alone hheeds hstocked.toReady hrelies hkind hvalid)
  rw [h.spinUp_eq] at hend
  exact hend

theorem executeWith (h : s.Attuned code) (hpath : s.controller.path = .channel) (hcalm : s.Calm)
    (hvalid : transfer.validate command 4096 = .ok ()) (hsized : (Request.executeWith command transfer).Sized code) :
    s.Punctual (Operation.executeWith command transfer) Prod.fst := by
  obtain ⟨l, hrelies, hheeds⟩ := h.heeds hpath hcalm
  obtain ⟨store, hstocked⟩ := h.stocked
  obtain ⟨⟨span, hfits⟩, hroom⟩ := Transfer.validate_eq_ok_iff.mp hvalid
  have hspan : span.validate = .ok () := Command.validate_span hfits.data hfits.valid
  have hcode : span.sizeCode = code := hsized span _ hfits.data
  have hread : (s.machine.core.fdc.disk.read (span.extent s.controller.drive)).length = span.byteLength := by
    rw [hstocked.drive, hstocked.stored.read_eq hspan hcode]
    exact hstocked.stored.length_read hspan hcode
  have hend := Program.Ensures.run keepsTo_alone
    (ensures_executeWith_alone hheeds hstocked.toReady hrelies hfits (hstocked.bounce ▸ hroom) hread)
  rw [h.spinUp_eq] at hend
  exact hend

end Attuned
end Station

/-- A controller is discovered with the line and the channel that it is wired to, and used with sectors of one size. As
long as the DMA path is taken and the line calm, each valid command that moves the head or a payload is punctual. -/
theorem ends_by_interrupt (h : m₀.Hospitable code) :
    ∃ c m, (Controller.discover m₀.placement).run machine m₀ = (some c, m) ∧
      ∀ uses : List Use, (∀ use ∈ uses, use.Audible code) →
        let s := uses.foldl Station.use ⟨c, m⟩
        s.controller.path = .channel → s.Calm →
          (∀ command, command.kind = .seek → command.validate = .ok () →
            s.Punctual (Operation.execute command) id) ∧
          ∀ command transfer, transfer.validate command 4096 = .ok () →
            (Request.executeWith command transfer).Sized code →
            s.Punctual (Operation.executeWith command transfer) Prod.fst := by
  obtain ⟨c, m, hrun, hattuned⟩ := attuned_of_discover h
  refine ⟨c, m, hrun, ?_⟩
  intro uses huses s hpath hcalm
  have hs : s.Attuned code := hattuned.uses huses
  exact ⟨fun _ hkind hvalid => hs.execute hpath hcalm hkind hvalid,
    fun _ _ hvalid hsized => hs.executeWith hpath hcalm hvalid hsized⟩

/-- Interrupts out of nowhere, the DMA path left and taken again, a reset and another drive: a seek and a read after
that are ended by their interrupts, once the motor of that drive has come up to speed. -/
theorem ends_by_interrupt_fired :
    let uses := [Use.fire 6 5, .ask .disableDma, .fire 6 3, .ask .enableDma, .ask .reset, .ask (.selectDrive .b),
      .fire 6 2]
    ({} : Simulated).Hospitable 0 ∧ (∀ use ∈ uses, use.Audible 0) ∧
      ∃ c m, (Controller.discover ({} : Simulated).placement).run machine {} = (some c, m) ∧
        let s := uses.foldl Station.use ⟨c, m⟩
        s.controller.path = .channel ∧ s.Calm ∧ s.machine.spinUp = 500 ∧
          s.Punctual (Operation.execute (.seek 40)) id ∧
          s.Punctual (Operation.executeWith (.read ⟨3, 0, 1, 0, 2⟩) (.read (List.replicate 256 0))) Prod.fst := by
  intro uses
  have hm : ({} : Simulated).Hospitable 0 := hospitable_fresh 0
  have huses : ∀ use ∈ uses, use.Audible 0 := by
    intro use huse
    simp only [uses, List.mem_cons, List.not_mem_nil, or_false] at huse
    rcases huse with rfl | rfl | rfl | rfl | rfl | rfl | rfl <;> trivial
  obtain ⟨c, m, hrun, hpunctual⟩ := ends_by_interrupt hm
  have hfacts : let r := (Controller.discover ({} : Simulated).placement).run machine {}
      r.1.map (fun c =>
        let s := uses.foldl Station.use ⟨c, r.2⟩
        (s.controller.path, s.controller.line.map fun l => (s.machine.interrupts.memory.counter l.id).degraded,
          s.machine.spinUp)) = some (.channel, some false, 500) := by
    decide +kernel
  rw [hrun] at hfacts
  have hafter := hpunctual uses huses
  refine ⟨hm, huses, c, m, hrun, ?_⟩
  dsimp only [Option.map_some] at hfacts hafter ⊢
  generalize uses.foldl Station.use ⟨c, m⟩ = s at hfacts hafter ⊢
  simp only [Option.some.injEq, Prod.mk.injEq] at hfacts
  obtain ⟨hpath, hline, hspin⟩ := hfacts
  have hcalm : s.Calm := by
    intro l hl
    rw [show s.controller.line = some l from hl] at hline
    exact Option.some.inj hline
  obtain ⟨hseek, hread⟩ := hafter hpath hcalm
  have hroom : (Transfer.read (List.replicate 256 0)).length ≤ 4096 := by
    dsimp only [Transfer.read]
    rw [List.length_replicate]
    decide
  have hvalid : (Transfer.read (List.replicate 256 0)).validate (.read ⟨3, 0, 1, 0, 2⟩) 4096 = .ok () :=
    Transfer.validate_eq_ok_iff.mpr ⟨⟨⟨3, 0, 1, 0, 2⟩, rfl, rfl, List.length_replicate, Nat.le_refl _⟩, hroom⟩
  refine ⟨hpath, hcalm, hspin, hseek _ rfl rfl, hread _ _ hvalid ?_⟩
  rintro span direction ⟨⟩
  rfl

end Diskette
