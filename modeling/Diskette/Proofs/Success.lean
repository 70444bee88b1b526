import Diskette.Proofs.Success.Commands
import Diskette.Proofs.Standing
import Diskette.Simulated.Machine

/-!
What it means that a command went well, on any controller. Its report is what the controller said last, and the
driver's own view of the drive is that of the report.
-/
namespace Diskette

variable {base : UInt16} {x c c' : Controller} {t u : History Platform} {command : Command} {report : Report}

/-- What is so once a command has gone well: what its report tells, and that the command is done with. -/
structure Fulfilled (x : Controller) (command : Command) (report : Report) (c : Controller) (t : History Platform) :
    Prop extends Attained x command report c t where
  phase : c.phase = .done

theorem unread_of_givesUp {call : Platform.Call} (h : GivesUp c call) : Unread call := by
  cases call with
  | input port => exact h.elim
  | _ => exact nofun

namespace Attained

theorem of_status (h : Attained x command report c t) (hstatus : c'.status = c.status)
    (hcylinder : c'.cylinder = c.cylinder) : Attained x command report c' t where
  toEnding := h.toEnding
  fewest_le := h.fewest_le
  le_most := h.le_most
  report_status := h.report_status.trans hstatus.symm
  status := hstatus.trans h.status
  cylinder := hcylinder.trans h.cylinder
  succeeds := by
    rw [hstatus]
    exact h.succeeds

theorem append (h : Attained x command report c t) (hu : ∀ e ∈ u, Unread e.call) :
    Attained x command report c (t ++ u) :=
  { h with toEnding := h.toEnding.append hu }

theorem withNotice (h : Attained x command report c t) (notice : Option Failure) :
    Attained x command { report with notice } c t :=
  { h with }

/-- What has been attained does not count on the DMA path. -/
theorem leavable (x : Controller) (command : Command) (report : Report) :
    Leavable recorded (Attained x command report) where
  stance hc h := by
    rename_i c c' _
    have hstatus : c'.stance.status = c.stance.status := by rw [hc]
    have hcylinder : c'.stance.cylinder = c.stance.cylinder := by rw [hc]
    exact h.of_status hstatus hcylinder
  givesUp hcall h := by
    refine ⟨trivial, ?_⟩
    rintro r _ rfl
    exact h.append (by simpa using unread_of_givesUp hcall)
  takePrior h := h.of_status rfl rfl
  unhook h := h.of_status rfl rfl
  toPort h := h.of_status rfl rfl
  writeOutput _ := by
    intro c t h
    rw [Operation.ensures_shadowed]
    exact Program.ensures_recorded.mpr fun _ => (h.append (by simp [Unread])).of_status rfl rfl

end Attained

theorem ensures_complete_done (early : Option Failure) (report : Report) (h : Standing c) :
    Operation.Ensures recorded (Operation.complete early report)
      (fun _ c' _ => c'.phase = .done ∧ c'.expectation = c.expectation) c t := by
  have hdone : Standing { c with phase := .done } := h.of_setting rfl
  have htake : Operation.Ensures recorded (Operation.takeNotice early)
      (fun _ c' _ => c'.phase = .done ∧ c'.expectation = c.expectation) { c with phase := .done } t := by
    cases early with
    | none =>
      refine (ensures_noticeStorm hdone).mono ?_
      rintro _ c' _ hweathered
      exact ⟨hweathered.phase, hweathered.expectation⟩
    | some notice => exact And.intro (Eq.refl Phase.done) (Eq.refl c.expectation)
  refine Operation.ensures_bind.mpr (Operation.ensures_setPhase.mpr ?_)
  exact Operation.ensures_bind.mpr (htake.mono fun _ _ _ hend => hend)

/-- A report is handed back with what it tells. -/
theorem ensures_complete_fulfilled (early : Option Failure) (hstanding : Standing c)
    (h : Attained x command report c t) :
    Operation.Ensures recorded (Operation.complete early report) (Fulfilled x command) c t := by
  have hleavable := Attained.leavable x command report
  have hcomplete := hleavable.complete hleavable.disableDma (fun _ h => h.of_status rfl rfl) early report h
  refine (hcomplete.and (ensures_complete_done early report hstanding)).mono ?_
  rintro _ c' t' ⟨⟨⟨notice, rfl⟩, hattained⟩, hphase, -⟩
  exact ⟨hattained.withNotice notice, hphase⟩

theorem ensures_perform_fulfilled (command : Command) (transfer : Option Transfer) (h : Standing c) :
    Operation.Ensures recorded (Operation.perform command transfer)
      (fun r c' t' => ∀ report, r.1 = .ok report → Fulfilled c command report c' t') c t := by
  have hprepare : Operation.Ensures recorded (Operation.prepare command transfer) _ c t :=
    Operation.ensures_prepare (K := fun _ => True) ⟨trivial, fun _ _ _ => trivial⟩ trivial
  refine Operation.ensures_bind.mpr (hprepare.mono ?_)
  rintro (cause | bytes) c₁ t₁ ⟨rfl, -, hprepared⟩
  · exact nofun
  obtain ⟨rfl, -, hpayload⟩ := hprepared bytes rfl
  have hstart : Unaltered c₁ c₁ := ⟨rfl, rfl, rfl, rfl, id⟩
  have hpass := (conversing_unaltered c₁).toPatient.undertake (leavable_unaltered c₁).disableDma
    (fun _ _ => ensures_carryOut_attained hpayload) hstart (s := t₁)
  refine Operation.ensures_bind.mpr ((hpass.and (stands_undertake command _ transfer c₁ t₁ h)).mono ?_)
  rintro ⟨early, outcome, delivered⟩ c₂ t₂ ⟨hattained, hstanding⟩
  cases outcome with
  | ok report =>
    refine Operation.ensures_bind.mpr ((ensures_complete_fulfilled early hstanding hattained).mono ?_)
    rintro report c₃ t₃ hfulfilled _ ⟨⟩
    exact hfulfilled
  | error cause => exact Operation.ensures_bind.mpr ((Program.ensures_execution _ t₂).mono fun _ _ _ => nofun)

/-- A command that goes well, wherever a run of the driver has got to and whatever the platform does, reports what the
controller said last before it came to rest. The driver takes its status and the cylinder from that, they do not speak
of a failure, and it says that an interrupt ended the command only if the line has fired since it was armed. -/
theorem success_sound {histories : List (History Platform)} (hrun : Run base histories (some c)) (command : Command) :
    (∀ h report c', Execution ((Operation.execute command).run c) h (.ok report, c') →
      Fulfilled c command report c' h) ∧
    ∀ transfer h report buffer c', Execution ((Operation.executeWith command transfer).run c) h
      ((.ok report, buffer), c') → Fulfilled c command report c' h := by
  have hc : Standing c := hrun.standing c rfl
  constructor
  · intro h report c' hexec
    obtain ⟨delivered, hperform⟩ := hexec.of_execute
    exact hperform.recorded (ensures_perform_fulfilled command none hc) report rfl
  · intro transfer h report buffer c' hexec
    obtain ⟨delivered, hperform, -⟩ := hexec.of_executeWith
    exact hperform.recorded (ensures_perform_fulfilled command (some transfer) hc) report rfl

/-- A seek that an interrupt ends. -/
theorem success_sound_seek :
    let s := Session.acts Simulated.machine 0x3F0 { machine := {} } [.discover (some 6) (some 2)]
    ∃ c ∈ s.controller, ∃ h report c', Execution ((Operation.execute (.seek 3)).run c) h (.ok report, c') ∧
      Fulfilled c (.seek 3) report c' h ∧ report.result = [0x20, 3] ∧ report.endedBy = .interrupt := by
  intro s
  have hrun : Run 0x3F0 s.histories s.controller := Session.run_acts _ _ _ .start
  have hfound : s.controller.isSome := by decide +kernel
  obtain ⟨c, hc⟩ := Option.isSome_iff_exists.mp hfound
  have hreport : ∀ c ∈ s.controller,
      (((Operation.execute (.seek 3)).run c).run Simulated.machine s.machine).1.1.toOption.map
        (fun report => (report.result, report.endedBy)) = some ([0x20, 3], .interrupt) := by
    decide +kernel
  have hexec := Program.execution_run Simulated.machine ((Operation.execute (.seek 3)).run c) s.machine
  replace hreport := hreport c hc
  generalize (((Operation.execute (.seek 3)).run c).run Simulated.machine s.machine).1 = r at hexec hreport
  obtain ⟨cause | report, c'⟩ := r
  · exact absurd hreport nofun
  · obtain ⟨hresult, hsign⟩ := Prod.mk.inj (Option.some.inj hreport)
    exact ⟨c, hc, _, report, c', hexec, (success_sound (hc ▸ hrun) (.seek 3)).1 _ _ _ hexec, hresult, hsign⟩

end Diskette
