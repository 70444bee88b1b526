import Diskette.Proofs.InterruptFlag
import Diskette.Proofs.Ownership
import Diskette.Proofs.Takeover

/-!
A reset brings the driver and the simulated controller together, whatever state either was in: what is left of
both is a function of the registers that the driver has noted and of its data path. So a second reset finds
what it would leave.
-/
namespace Diskette

open Simulated
open Diskette.Core (surroundings)

variable {c : Controller} {k : Core} {m m' : Simulated}

/-- The driver after a reset: the reset line is let go, the data path is told, and nothing is under way. -/
def Controller.steadied (c : Controller) : Controller :=
  { c with
    shadow := { c.shadow with output := { c.shadow.output with resetAsserted := false } }
    phase := .ready
    expectation := .idle
    specified := some c.path }

theorem Controller.steadied_steadied (c : Controller) : c.steadied.steadied = c.steadied := rfl

/-- A reset drives the line whatever the driver has noted of it. -/
theorem reset_run_released (c : Controller) : Operation.reset.run c =
    Operation.reset.run { c with
      shadow := { c.shadow with output := { c.shadow.output with resetAsserted := false } } } := rfl

namespace Core

/-- Between two commands, with no interrupt to be sensed; `commands` have been taken. -/
def quieted (k : Core) (commands : List UInt8) : Core :=
  { k with fdc := { k.fdc with stage := .command, partialCommand := [], results := [], pending := [], commands } }

/-- The controller after a reset by a driver. -/
def steadied (k : Core) (c : Controller) (commands : List UInt8) : Core :=
  { k with fdc := { k.fdc with
      output := c.steadied.shadow.output.encode
      rate := c.shadow.rate.encode
      nonDma := c.path == .port
      stage := .command
      partialCommand := []
      results := []
      pending := []
      commands
      resets := k.fdc.resets + 1 } }

theorem quieted_of_idle {base : UInt16} (h : Idle base k) (hresults : k.fdc.results = [])
    (hpending : k.fdc.pending = []) : k.quieted k.fdc.commands = k := by
  have hcommand := h.command
  have hwhole := h.whole
  obtain ⟨fdc, channel, faults, bounceAddress, bounce⟩ := k
  cases fdc
  simp only at hcommand hwhole hresults hpending
  subst hcommand hwhole hresults hpending
  rfl

end Core

/-- As many senses as there are interrupts leave nothing behind. -/
theorem ensures_drain_quieted (count : Nat) (hidle : Core.Idle c.base k) (hf : k.faults.Harmless)
    (hresults : k.fdc.results = []) (hpending : k.fdc.pending.length ≤ count)
    (hentries : ∀ e ∈ k.fdc.pending, e.1 ≠ Operation.nothingPending) :
    Operation.Ensures surroundings (Operation.drain count) (fun _ c' k' => c' = c ∧
      ∃ commands, k' = k.quieted commands) c k := by
  induction count generalizing k with
  | zero =>
    have hnone : k.fdc.pending = [] := List.length_eq_zero_iff.mp (Nat.le_zero.mp hpending)
    exact ⟨rfl, _, (Core.quieted_of_idle hidle hresults hnone).symm⟩
  | succ count ih =>
    have hopen := (hidle.took [Opcode.senseInterrupt]).same (Core.same_sensed _) rfl
    have hlength := k.length_senseAnswer
    simp only [Operation.drain, Operation.ensures_bind, Operation.ensures_get, Operation.ensures_lift]
    refine (ensures_transact_harmless (n := .between 1 2) hidle hf (List.cons_ne_nil Opcode.senseInterrupt [])
      rfl (fun _ => Core.core_obey_sense) hopen rfl hlength.1 (by exact hlength.2)).mono ?_
    rintro _ k₁ ⟨result, rfl, hresult, hk₁⟩
    have hfirst : result.byte 0 = k.senseAnswer.getD 0 0 := byte_of_toList hresult 0
    rw [Operation.ensures_ite, hfirst]
    cases hp : k.fdc.pending with
    | nil =>
      have hnone : k.senseAnswer.getD 0 0 = Operation.nothingPending := by simp [Core.senseAnswer, hp]
      rw [if_pos hnone]
      refine ⟨rfl, Opcode.senseInterrupt :: k.fdc.commands, ?_⟩
      rw [hk₁]
      simp [Core.quieted, Core.took, Core.sensed, Core.answer, Fdc.answer, hp]
    | cons entry entries =>
      have hst0 : k.senseAnswer.getD 0 0 = entry.1 := by simp [Core.senseAnswer, hp]
      have htail : k₁.fdc.pending = entries := by
        rw [hk₁]
        exact congrArg List.tail hp
      have hkept : ∀ commands, k₁.quieted commands = k.quieted commands := fun _ => by rw [hk₁]; rfl
      have hidle₁ : Core.Idle c.base k₁ := hk₁ ▸ hopen.idle
      have hf₁ : k₁.faults.Harmless := hk₁ ▸ hf
      have hresults₁ : k₁.fdc.results = [] := by rw [hk₁]; rfl
      have hlog : (Platform.log c.base (.drained entry.1)).Only (Core.Incidental k₁.fdc.base) :=
        .perform (by trivial)
      rw [hp] at hpending hentries
      rw [hst0, if_neg (hentries entry List.mem_cons_self), Operation.ensures_bind, Operation.ensures_log]
      apply (Core.ensures_incidental hlog).mono
      rintro _ _ rfl
      refine (ih hidle₁ hf₁ hresults₁ ?_ ?_).mono ?_
      · rw [htail]
        exact Nat.le_of_succ_le_succ hpending
      · rw [htail]
        exact fun e he => hentries e (List.mem_cons_of_mem entry he)
      · rintro _ c' k' ⟨rfl, commands, rfl⟩
        exact ⟨rfl, commands, hkept commands⟩

theorem ensures_respecify_told (hidle : Core.Idle c.base k) (hf : k.faults.Harmless) :
    Operation.Ensures surroundings Operation.respecify (fun _ c' k' =>
      c' = { c with specified := some c.path } ∧ ∃ bytes, k' = ((k.took bytes).onPath c.path).answer []) c k := by
  have htells := tells_standardSpecify c.path c.drive c.recording
  generalize hsent : (Command.standardSpecify c.path).bytes c.drive c.recording = bytes at htells
  have hopen : Core.Open c.base ((k.took bytes).onPath c.path) :=
    ⟨⟨hidle.present, hidle.base_eq, hidle.room⟩, hidle.outOfReset, rfl⟩
  simp only [Operation.respecify, Operation.ensures_bind, Operation.ensures_get, Attempt.ensures_run,
    Operation.specify, Attempt.ensures_bind, Attempt.ensures_get, Attempt.ensures_of, hsent]
  refine (ensures_transact_harmless (n := .exactly 0) hidle hf htells.ne_nil htells.length_eq
    (fun _ => htells.obeyed) hopen rfl (Nat.le_refl 0) (Nat.le_refl 0)).mono ?_
  rintro _ _ ⟨result, rfl, -, rfl⟩
  exact ⟨rfl, bytes, rfl⟩

theorem ensures_reset_released (h : Core.At c.base k) (hf : k.faults.Harmless)
    (hout : c.shadow.output.resetAsserted = false) :
    Operation.Ensures surroundings Operation.reset (fun _ c' k' => c' = c.steadied ∧
      ∃ commands, k' = k.steadied c commands) c k := by
  have hsteadied : c.steadied = { c with phase := .ready, expectation := .idle, specified := some c.path } := by
    unfold Controller.steadied
    rw [← hout]
  have hreopened := reopened_reopened h hout
  have hpending : (k.reopened c).fdc.pending.length ≤ 4 := by
    rw [hreopened.owed]
    exact Nat.le_of_eq rfl
  have hdrain := ensures_drain_quieted 4 hreopened.idle hf rfl hpending (hreopened.owed.symm ▸ owed_ne_nothing)
  refine ensures_reset_of_comeBack h hout (Operation.ensures_bind.mpr (hdrain.mono ?_))
  rintro _ c _ ⟨rfl, commands, rfl⟩
  refine Operation.ensures_bind.mpr (ensures_acknowledgeLine.mono ?_)
  rintro _ c _ ⟨rfl, rfl⟩
  rw [Operation.ensures_bind, Operation.ensures_modify]
  have hidle : Core.Idle c.base ((k.reopened c).quieted commands) :=
    ⟨⟨⟨h.present, h.base_eq, h.room⟩, hreopened.idle.outOfReset, rfl⟩, rfl⟩
  have hrespecify := ensures_respecify_told (c := { c with expectation := .idle, specified := none }) hidle hf
  refine Operation.ensures_bind.mpr (hrespecify.mono ?_)
  rintro _ _ _ ⟨rfl, bytes, rfl⟩
  rw [Operation.ensures_setPhase]
  refine ⟨hsteadied.symm, bytes.headD 0 :: commands, ?_⟩
  unfold Core.steadied
  rw [hsteadied]
  simp only [Core.answer, Core.onPath, Core.took, Core.quieted, Core.reopened, Core.withRate, Core.restarted,
    Fdc.answer, List.isEmpty_nil, ↓reduceIte]

/-- Whatever the two were in the midst of, and whether or not the driver had the reset line asserted. -/
theorem ensures_reset_steadied (h : Core.At c.base k) (hf : k.faults.Harmless) :
    Operation.Ensures surroundings Operation.reset (fun _ c' k' => c' = c.steadied ∧
      ∃ commands, k' = k.steadied c commands) c k := by
  unfold Operation.Ensures
  rw [reset_run_released]
  exact ensures_reset_released (c := { c with
    shadow := { c.shadow with output := { c.shadow.output with resetAsserted := false } } }) h hf rfl

/-- The driver and the controller agree about the registers and the data path, and nothing is under way. -/
structure Stable (c : Controller) (m : Simulated) : Prop where
  idle : m.fdc.idle = true
  quiet : m.fdc.pending = []
  output_eq : m.fdc.output = c.shadow.output.encode
  rate_eq : m.fdc.rate = c.shadow.rate.encode
  nonDma : m.fdc.nonDma = (c.path == .port)
  specified : c.specified = some c.path
  phase : c.phase = .ready
  expectation : c.expectation = .idle

theorem stable_of_steadied {commands : List UInt8} (h : m'.core = m.core.steadied c commands) :
    Stable c.steadied m' := by
  have hfdc : m'.fdc = (m.core.steadied c commands).fdc := congrArg Core.fdc h
  have houtput : (m.core.steadied c commands).fdc.inReset = false :=
    Core.inReset_encode m.core c.steadied.shadow.output
  have hidle : m'.fdc.idle = true := by
    unfold Fdc.idle
    rw [hfdc, houtput]
    rfl
  exact ⟨hidle, by rw [hfdc]; rfl, by rw [hfdc]; rfl, by rw [hfdc]; rfl, by rw [hfdc]; rfl, rfl, rfl, rfl⟩

/-- One reset on the simulated machine. -/
theorem run_reset (h : Core.At c.base m.core) (hf : m.faults.Harmless) : ∃ m' commands,
    (Operation.reset.run c).run Simulated.machine m = (((), c.steadied), m') ∧
      m'.core = m.core.steadied c commands ∧ m'.interrupts.enabled = m.interrupts.enabled := by
  obtain ⟨hdriver, commands, hcore⟩ := Program.Ensures.run Core.keepsTo (ensures_reset_steadied h hf)
  obtain ⟨ms, hpassage⟩ := keepsTo_restless.passage (Operation.reset.run c) m
  refine ⟨((Operation.reset.run c).run Simulated.machine m).2, commands, Prod.ext (Prod.ext rfl hdriver) rfl, hcore, ?_⟩
  exact enabled_of_matched hpassage (matched_of_tidy Wire.tidy_reset hpassage.execution)

/-- A reset makes driver and controller agree, with the disks and heads where they were and the processor's flag
as it was. A second one has nothing left to do: the driver stays as it is, and so does the controller but for its
count of resets and its list of commands. -/
theorem reset_stabilizes (c : Controller) (m : Simulated) (hpresent : m.fdc.present = true)
    (hbase : m.fdc.base = c.base) (hroom : c.base.toNat ≤ 0xFFF8) (hf : m.faults.Harmless) : ∃ m',
    (Operation.reset.run c).run Simulated.machine m = (((), c.steadied), m') ∧ Stable c.steadied m' ∧
      m'.fdc.disk = m.fdc.disk ∧ m'.fdc.cylinders = m.fdc.cylinders ∧
      m'.interrupts.enabled = m.interrupts.enabled ∧ ∃ m'',
        (Operation.reset.run c.steadied).run Simulated.machine m' = (((), c.steadied), m'') ∧
          m''.fdc = { m'.fdc with commands := m''.fdc.commands, resets := m''.fdc.resets } ∧
          m''.interrupts.enabled = m'.interrupts.enabled := by
  obtain ⟨m', commands, hrun, hcore, hflag⟩ := run_reset ⟨hpresent, hbase, hroom⟩ hf
  have hfdc : m'.fdc = (m.core.steadied c commands).fdc := congrArg Core.fdc hcore
  have hfaults : m'.faults = m.faults := congrArg Core.faults hcore
  have hat : Core.At c.steadied.base m'.core := hcore ▸ ⟨hpresent, hbase, hroom⟩
  obtain ⟨m'', commands', hagain, hcore', hflag'⟩ := run_reset hat (hfaults ▸ hf)
  refine ⟨m', hrun, stable_of_steadied hcore, by rw [hfdc]; rfl, by rw [hfdc]; rfl, hflag, m'', hagain, ?_, hflag'⟩
  have hfdc' : m''.fdc = (m'.core.steadied c.steadied commands').fdc := congrArg Core.fdc hcore'
  rw [hfdc']
  change (m'.core.steadied c.steadied commands').fdc = { m'.fdc with
    commands := commands', resets := m'.fdc.resets + 1 }
  simp only [Core.steadied, Simulated.core, hfdc, c.steadied_steadied]
  rfl

/-- A driver that holds the reset line, on a controller that has half a command, an interrupt that nobody has
sensed and a result to give. -/
theorem reset_stabilizes_abandoned :
    let c : Controller := { (default : Controller) with
      shadow := { base := 0x3F0, output := { gate := true, resetAsserted := true } }, path := .channel }
    let m : Simulated := abandonResult { fdc := {
      partialCommand := [0x0F], pending := [(0x20, 5)], nonDma := true, cylinders := fun _ => 5 } }
    ∃ m', (Operation.reset.run c).run Simulated.machine m = (((), c.steadied), m') ∧ Stable c.steadied m' ∧
      m'.fdc.cylinders .a = 5 ∧ m'.fdc.nonDma = false ∧ m'.fdc.output = 0x0C := by
  intro c m
  obtain ⟨m', hrun, hstable, -, hcylinders, -, -⟩ :=
    reset_stabilizes c m rfl rfl (by decide) ⟨rfl, rfl, rfl, rfl, rfl⟩
  have hoff : DigitalOutput.encode { gate := true } = 0x0C := by decide
  exact ⟨m', hrun, hstable, congrFun hcylinders .a, hstable.nonDma, hstable.output_eq.trans hoff⟩

end Diskette
