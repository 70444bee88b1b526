import Diskette.Proofs.Baseline
import Diskette.Proofs.Simulated.Discovery
import Diskette.Proofs.Simulated.Fixture
import Diskette.Proofs.Simulated.Station

/-!
The seek after a failure. Once the faults are gone it gets where it should, whatever they were, unless
they have let no byte of a command in: then the reset could not take back the interrupts that it is
owed, and the seek takes the first of them for its own.
-/
namespace Diskette

open Simulated
open Diskette.Core (surroundings)

variable {α β : Type} {c c' : Controller} {k k' : Core} {s s' : Station} {command : Command}
  {t : Option Transfer} {cause : Failure}

namespace Station

/-- What an operation ensures of its record is so of it here. -/
theorem perform_of_recorded {op : Operation α} {Q : α → Controller → History Platform → Prop}
    (h : Operation.Ensures recorded op Q s.controller []) :
    ∃ t, Q (s.perform op).1 (s.perform op).2.controller t :=
  ⟨_, (Program.execution_run Simulated.machine (op.run s.controller) s.machine).recorded h⟩

theorem fixture_perform (s : Station) (op : Operation α) :
    ∃ output, (s.perform op).2.machine.fixture = { s.machine.fixture with output } := fixture_run _

/-- The machine with other faults. -/
def under (s : Station) (faults : Faults) : Station :=
  { s with machine := { s.machine with faults } }

/-- The machine without its faults. -/
def cleared (s : Station) : Station := s.under {}

end Station

theorem Linked.under (h : Linked s.controller s.machine.core) (faults : Faults) :
    Linked (s.under faults).controller (s.under faults).machine.core :=
  ⟨⟨h.present, h.base_eq, h.room⟩, h.output_eq, h.outOfReset⟩

theorem Core.Idle.under (h : Core.Idle s.controller.base s.machine.core) (faults : Faults) :
    Core.Idle (s.under faults).controller.base (s.under faults).machine.core :=
  ⟨⟨⟨h.present, h.base_eq, h.room⟩, h.outOfReset, h.whole⟩, h.command⟩

theorem Sound.under (h : Sound s.controller s.machine.core) (faults : Faults) :
    Sound (s.under faults).controller (s.under faults).machine.core := by
  refine ⟨h.linked.under faults, fun hwhole hcommand => ?_⟩
  have hsettled := h.settled hwhole hcommand
  exact ⟨h.linked.under faults, hwhole, hcommand, hsettled.quiet, hsettled.told⟩

theorem Station.harmless_cleared (s : Station) : s.cleared.machine.core.faults.Harmless :=
  ⟨rfl, rfl, rfl, rfl, rfl⟩

/-- The driver can reach its controller to reset it. -/
structure Reachable (s₀ s : Station) : Prop where
  outOfReset : s.controller.shadow.output.resetAsserted = false
  base : s.controller.base = s₀.controller.base
  fixture : ∃ output, s.machine.fixture = { s₀.machine.fixture with output }

/-- A failure that calls for a reset ends in the recovery, from wherever the command has got to. -/
theorem recover_of_failure (hc : Standing s.controller)
    (h : (s.perform (Operation.perform command t)).1.1 = .error cause) (hreset : cause.causedReset) :
    ∃ s₁, Reachable s s₁ ∧ (s.perform (Operation.perform command t)).2 =
      (s₁.perform (Operation.recover command cause)).2 := by
  have hprepare : Operation.Ensures recorded (Operation.prepare command t)
      (fun _ c' _ => c' = s.controller) s.controller [] :=
    (Operation.ensures_prepare (K := fun _ => True) ⟨trivial, fun _ _ _ => trivial⟩ trivial).mono
      fun _ _ _ hprepared => hprepared.1
  obtain ⟨_, hsame⟩ := Station.perform_of_recorded hprepare
  obtain ⟨output, hfixture⟩ := s.fixture_perform (Operation.prepare command t)
  unfold Operation.perform at h ⊢
  rw [Station.perform_bind] at h ⊢
  generalize s.perform (Operation.prepare command t) = prepared at h hsame hfixture ⊢
  obtain ⟨_ | bytes, s₁⟩ := prepared
  · obtain rfl : Failure.invalidParameters _ = cause := Except.error.inj h
    exact absurd hreset nofun
  · obtain ⟨c₁, m₁⟩ := s₁
    obtain rfl : c₁ = s.controller := hsame
    obtain ⟨_, -, c₂, hweathered, hsetting⟩ := Station.perform_of_recorded (s := ⟨s.controller, m₁⟩)
      (ensures_undertake command bytes t hc)
    obtain ⟨output', hfixture'⟩ :=
      Station.fixture_perform ⟨s.controller, m₁⟩ (Operation.undertake command bytes t)
    dsimp only at h ⊢
    rw [Station.perform_bind] at h ⊢
    generalize Station.perform ⟨s.controller, m₁⟩ (Operation.undertake command bytes t) = pass
      at h hsetting hfixture' ⊢
    obtain ⟨⟨early, outcome, delivered⟩, s₂⟩ := pass
    cases outcome with
    | ok report =>
      dsimp only at h
      rw [Station.perform_bind] at h
      exact absurd h nofun
    | error cause' =>
      obtain rfl : cause' = cause := by
        dsimp only at h
        rw [Station.perform_bind] at h
        exact Except.error.inj h
      have hstanding : Standing s₂.controller :=
        ((hweathered.standing hc).spunUp command).of_setting hsetting
      have hbase : s₂.controller.base = s.controller.base :=
        (congrArg Shadow.base (Controller.shadow_of_setting hsetting)).trans
          (spunUp_of_weathered command hweathered).1
      refine ⟨s₂, ⟨hstanding.outOfReset, hbase, output', hfixture'.trans (by rw [hfixture])⟩, ?_⟩
      dsimp only
      rw [Station.perform_bind]
      rfl

/-- The recovery masks the channel, and leaves the rest to the reset. -/
theorem ensures_recover_of_reset {K : Controller → Core → Prop} (h : Core.At c.base k)
    (hreset : ∀ channel, Operation.Ensures surroundings Operation.reset
      (fun _ c' => K { c' with phase := .faulted }) { c with expectation := .idle } { k with channel }) :
    Operation.Ensures surroundings (Operation.recover command cause) (fun _ => K) c k := by
  have hlog : (Platform.log c.base (.failed command cause)).Only (Core.Incidental k.fdc.base) :=
    .perform (by trivial)
  have hmask : ∀ number, (Platform.channel number .mask).Ensures surroundings
      (fun _ k' => ∃ channel, k' = { k with channel }) k := by
    intro number
    apply Core.ensures_perform
    rintro m rfl
    exact ⟨_, rfl⟩
  have hmasked : Operation.Ensures surroundings Operation.maskChannel
      (fun _ c' k' => c' = c ∧ ∃ channel, k' = { k with channel }) c k := by
    simp only [Operation.maskChannel, Operation.ensures_bind, Operation.ensures_get]
    split
    · exact Operation.ensures_lift.mpr ((hmask _).mono fun _ _ hk => ⟨rfl, hk⟩)
    · exact ⟨rfl, k.channel, rfl⟩
  unfold Operation.recover
  rw [Operation.ensures_bind, Operation.ensures_log]
  apply (Core.ensures_incidental hlog).mono
  rintro _ k rfl
  refine Operation.ensures_bind.mpr (hmasked.mono ?_)
  rintro _ c _ ⟨rfl, channel, rfl⟩
  rw [Operation.ensures_bind, Operation.ensures_modify]
  exact Operation.ensures_bind.mpr ((hreset channel).mono fun _ _ _ hK => hK)

theorem ensures_recover_simulated (command : Command) (cause : Failure) (h : Core.At c.base k)
    (hout : c.shadow.output.resetAsserted = false) (hlimit : k.faults.commandLimit ≠ some 0) :
    Operation.Ensures surroundings (Operation.recover command cause)
      (fun _ c' k' => Sound c' k') c k := by
  refine ensures_recover_of_reset h fun channel => ?_
  have hat : Core.At c.base { k with channel } := ⟨h.present, h.base_eq, h.room⟩
  have hreset : Operation.Ensures surroundings Operation.reset
      (fun _ c' k' => Revived { c with expectation := .idle } { k with channel } c' k')
      { c with expectation := .idle } { k with channel } := ensures_reset_simulated hat hout hlimit
  apply hreset.mono
  intro _ c' k' hrevived
  have hend := hrevived.abides (.phase c' .faulted)
  exact ⟨hend.linked, hend.settled⟩

/-- Wherever it is sent, the next seek gets there once the faults are gone. -/
def Station.Recovers (s : Station) : Prop :=
  ∀ cylinder, ∃ report s', s.cleared.perform (Operation.execute (.seek cylinder)) = (.ok report, s') ∧
    report.result[1]? = some cylinder ∧ s'.controller.cylinder = cylinder

/-- An accepted command fails, and the controller is reset because of it. -/
inductive Breakdown (s : Station) : Station → Prop
  | execute {command : Command} {cause : Failure} {s' : Station} :
    command.validate = .ok () → cause.causedReset →
    s.perform (Operation.execute command) = (.error cause, s') → Breakdown s s'
  | executeWith {command : Command} {t : Transfer} {cause : Failure} {buffer : PayloadBuffer}
      {s' : Station} : t.validate command 4096 = .ok () → cause.causedReset →
    s.perform (Operation.executeWith command t) = ((.error cause, buffer), s') → Breakdown s s'

theorem Breakdown.recovery (h : Breakdown s s') (hc : Standing s.controller) :
    ∃ s₁ command cause, Reachable s s₁ ∧ s' = (s₁.perform (Operation.recover command cause)).2 := by
  cases h with
  | @execute command cause _ _ hreset hfails =>
    unfold Operation.execute at hfails
    rw [Station.perform_bind] at hfails
    have hcause : (s.perform (Operation.perform command none)).1.1 = .error cause :=
      congrArg Prod.fst hfails
    obtain ⟨s₁, hreachable, hrecovery⟩ := recover_of_failure hc hcause hreset
    exact ⟨s₁, command, cause, hreachable, (congrArg Prod.snd hfails).symm.trans hrecovery⟩
  | @executeWith command t cause buffer _ _ hreset hfails =>
    unfold Operation.executeWith at hfails
    rw [Station.perform_bind] at hfails
    have hcause : (s.perform (Operation.perform command (some t))).1.1 = .error cause :=
      congrArg (·.1.1) hfails
    obtain ⟨s₁, hreachable, hrecovery⟩ := recover_of_failure hc hcause hreset
    exact ⟨s₁, command, cause, hreachable, (congrArg Prod.snd hfails).symm.trans hrecovery⟩

/-- A driver that can reach its controller. -/
theorem Reachable.at {s₁ : Station} (h : Reachable s s₁)
    (hat : Core.At s.controller.base s.machine.core) :
    Core.At s₁.controller.base s₁.machine.core ∧
      s₁.machine.core.faults.commandLimit = s.machine.core.faults.commandLimit := by
  obtain ⟨output, hfixture⟩ := h.fixture
  unfold Simulated.fixture at hfixture
  obtain ⟨hpresent, hbase, hlimit, -⟩ := Fixture.mk.inj hfixture
  rw [h.base]
  exact ⟨⟨hpresent.trans hat.present, hbase.trans hat.base_eq, hat.room⟩, hlimit⟩

theorem Breakdown.recovers (h : Breakdown s s') (hc : Standing s.controller)
    (hat : Core.At s.controller.base s.machine.core)
    (hlimit : s.machine.core.faults.commandLimit ≠ some 0) : s'.Recovers := by
  obtain ⟨s₁, command, cause, hreachable, rfl⟩ := h.recovery hc
  obtain ⟨hat₁, hlimit₁⟩ := hreachable.at hat
  have hsound := Station.perform_of_ensures
    (ensures_recover_simulated command cause hat₁ hreachable.outOfReset (hlimit₁ ▸ hlimit))
  generalize (s₁.perform (Operation.recover command cause)).2 = s' at hsound ⊢
  intro cylinder
  have hvalid : (Command.seek cylinder).validate = .ok () := rfl
  obtain ⟨report, hreport, -, -, -, hthere⟩ :=
    Station.perform_of_ensures
      (ensures_execute_simulated (hsound.under {}) s'.harmless_cleared hvalid rfl)
  obtain ⟨hresult, hcylinder⟩ := hthere cylinder rfl
  exact ⟨report, _, Prod.ext hreport rfl, by rw [hresult]; rfl, hcylinder⟩

theorem ensures_true (op : Operation α) :
    Operation.Ensures surroundings op (fun _ _ _ => True) c k :=
  (Program.only_true (op.run c)).ensures (K := fun _ => True)
    (fun _ _ _ _ => ⟨trivial, fun _ _ _ => trivial⟩) trivial

/-- A command without a payload that breaks off once it is under way. -/
theorem ensures_execute_failing {P : Failure → Prop} (h : Linked c k)
    (hvalid : command.validate = .ok ()) (hdata : command.transfer? = none)
    (hproceed : ∀ c₁ k₁, Turned c k c₁ k₁ →
      Operation.Ensures surroundings Operation.makeReceptive (fun _ => Delivery.Ensures surroundings
        (Operation.proceed command (command.bytes c.drive c.recording) none c.drive)
        (fun _ _ _ _ => False) (fun cause _ _ _ => P cause) []) c₁ k₁) :
    Operation.Ensures surroundings (Operation.execute command)
      (fun r _ _ => ∃ cause, r = .error cause ∧ P cause) c k := by
  have haccept : Operation.accept command none = .done (.ok ()) := by
    unfold Operation.accept
    rw [hdata]
    rfl
  have hencode : command.encode c.drive c.recording = .ok (command.bytes c.drive c.recording) :=
    Command.encode_eq_ok_iff.mpr ⟨hvalid, rfl⟩
  simp only [Operation.execute, Operation.perform, Operation.prepare, Operation.ensures_bind,
    Operation.ensures_lift, haccept, Program.ensures_done, Operation.ensures_get, hencode,
    Operation.ensures_pure]
  refine (ensures_undertake_linked h fun c₁ k₁ hturned _ => hproceed c₁ k₁ hturned).mono ?_
  rintro ⟨early, cause | report, delivered⟩ c' k' hpass
  · refine Operation.ensures_bind.mpr ((ensures_true _).mono ?_)
    rintro _ _ _ -
    exact ⟨cause, rfl, hpass⟩
  · exact hpass.elim

theorem not_canWrite (h : Core.Idle c.base k) (hlimit : k.faults.commandLimit = some 0) :
    k.status.canWrite = false := by
  refine Bool.eq_false_iff.mpr fun hwrite => ?_
  apply (Core.canWrite_status h.outOfReset h.command).mp hwrite
  rw [h.whole]
  exact hlimit

theorem ensures_sendCommand_refused (h : Core.At c.base k) (hstatus : k.status.canWrite = false)
    (b : UInt8) (rest : List UInt8) (interrupting : Bool) :
    Attempt.Ensures surroundings (Operation.sendCommand (b :: rest) interrupting none)
      (fun _ _ _ => False) (fun cause _ _ => cause = .writeTimeout 0 (b :: rest).length) c k := by
  simp only [Operation.sendCommand, Attempt.ensures_bind, Attempt.ensures_setPhase,
    Attempt.ensures_getThe, Attempt.ensures_lift, Attempt.ensures_modify, Attempt.ensures_ofExcept]
  refine Core.ensures_uninterrupted (Program.ensures_bind.mpr ?_)
  change (Operation.expectEnd _ _ >>= _ : Routine _).Ensures surroundings _ k
  refine Program.ensures_bind.mpr ((ensures_expectEnd interrupting).mono ?_)
  rintro expectation _ rfl
  refine Program.ensures_bind.mpr ((ensures_send_refused h hstatus b rest).mono ?_)
  rintro _ _ ⟨rfl, rfl⟩
  rfl

theorem Turned.idle (h : Turned c k c' k') (hlinked : Linked c k) (hidle : Core.Idle c.base k) :
    Core.Idle c'.base k' := by
  obtain ⟨hwhole, hcommand⟩ := h.stage
  exact (h.linked hlinked).idle (hwhole.trans hidle.whole) (hcommand.trans hidle.command)

theorem ensures_makeReceptive_refused (h : Linked c k) (hstatus : k.status.canWrite = false)
    (hlimit : k.faults.commandLimit = some 0) :
    Operation.Ensures surroundings Operation.makeReceptive (fun _ c' k' => Reopened c' k k') c k := by
  simp only [Operation.makeReceptive, Operation.mainStatus, Operation.ensures_bind,
    Operation.ensures_get, Operation.ensures_lift, Operation.ensures_ite, Operation.ensures_log,
    Operation.ensures_pure]
  apply (Core.ensures_readStatus h.toAt).mono
  rintro _ k ⟨rfl, rfl⟩
  rw [hstatus, if_pos (by rfl)]
  have hlog : (Platform.log c.base (.notAccepting k.status)).Only (Core.Incidental k.fdc.base) :=
    .perform (by trivial)
  apply (Core.ensures_incidental hlog).mono
  rintro _ k rfl
  exact (ensures_reset_refused h.toAt h.outOfReset hlimit).mono fun _ _ _ hreset => hreset.2

/-- The first command fails, and the controller is reset because of it. -/
theorem ensures_version_refused (h : Linked c k) (hidle : Core.Idle c.base k)
    (hlimit : k.faults.commandLimit = some 0) :
    Operation.Ensures surroundings (Operation.execute .version)
      (fun r _ _ => ∃ cause, r = .error cause ∧ cause.causedReset) c k := by
  refine ensures_execute_failing h rfl rfl fun c₁ k₁ hturned => ?_
  have hlinked : Linked c₁ k₁ := hturned.linked h
  have hlimit₁ : k₁.faults.commandLimit = some 0 := hturned.kept.faults ▸ hlimit
  have hstatus := not_canWrite (hturned.idle h hidle) hlimit₁
  apply (ensures_makeReceptive_refused hlinked hstatus hlimit₁).mono
  intro _ c₂ k₂ hreopened
  have hlimit₂ : k₂.faults.commandLimit = some 0 := hreopened.kept.faults ▸ hlimit₁
  have hsend := ensures_sendCommand_refused hreopened.idle.toAt (not_canWrite hreopened.idle hlimit₂)
    Opcode.version [] false
  refine Delivery.ensures_attempt.mpr (Attempt.ensures_bind.mpr (hsend.mono ?_ ?_))
  · exact fun _ _ _ => False.elim
  · rintro _ _ _ rfl
    rfl

theorem ensures_recover_refused (command : Command) (cause : Failure) (h : Core.At c.base k)
    (hout : c.shadow.output.resetAsserted = false) (hlimit : k.faults.commandLimit = some 0) :
    Operation.Ensures surroundings (Operation.recover command cause)
      (fun _ c' k' => ∃ k₀, Reopened c' k₀ k') c k := by
  refine ensures_recover_of_reset h fun channel => ?_
  have hat : Core.At c.base { k with channel } := ⟨h.present, h.base_eq, h.room⟩
  have hreset : Operation.Ensures surroundings Operation.reset
      (fun _ c' k' => c'.setting = c.setting ∧ Reopened c' { k with channel } k')
      { c with expectation := .idle } { k with channel } := ensures_reset_refused hat hout hlimit
  apply hreset.mono
  rintro _ c' k' ⟨-, hreopened⟩
  exact ⟨_, hreopened.linked.abides (.phase c' .faulted), hreopened.idle, hreopened.kept,
    hreopened.owed⟩

/-- A sense that an earlier reset has left over, where a seek looks for its own. -/
theorem ensures_seek_owing {st0 position : UInt8} {rest : List (UInt8 × UInt8)} (h : Linked c k)
    (hidle : Core.Idle c.base k) (hf : k.faults.Harmless) (hpending : k.fdc.pending = (st0, position) :: rest)
    (hbad : indicatesFailure .seek st0 0 0 = true) (cylinder : UInt8) :
    Operation.Ensures surroundings (Operation.execute (.seek cylinder))
      (fun r _ _ => ∃ cause, r = .error cause ∧ cause = .abnormalTermination st0 0 0) c k := by
  refine ensures_execute_failing h rfl rfl fun c₁ k₁ hturned => ?_
  have hidle₁ : Core.Idle c₁.base k₁ := hturned.idle h hidle
  have hf₁ : k₁.faults.Harmless := hturned.kept.faults ▸ hf
  have hpending₁ : k₁.fdc.pending = (st0, position) :: rest := by
    obtain ⟨output, -, -, rfl⟩ := hturned.output
    exact hpending
  have hreceptive : Operation.Ensures surroundings Operation.makeReceptive
      (fun _ c₂ k₂ => c₂ = c₁ ∧ k₂ = k₁) c₁ k₁ := by
    simp only [Operation.makeReceptive, Operation.mainStatus, Operation.ensures_bind,
      Operation.ensures_get, Operation.ensures_lift]
    apply (Core.ensures_readStatus hidle₁.toAt).mono
    rintro _ _ ⟨rfl, rfl⟩
    rw [hidle₁.status (by simp [hf₁.commandLimit])]
    exact ⟨rfl, rfl⟩
  apply hreceptive.mono
  rintro _ c₁ k₁ ⟨rfl, rfl⟩
  have hseek : Attempt.Ensures surroundings (Operation.runSeek (.seek cylinder)
      (Command.bytes c.drive c.recording (.seek cylinder)) c.drive) (fun _ _ _ => False)
      (fun cause _ _ => cause = .abnormalTermination st0 0 0) c₁ k₁ := by
    refine ensures_runSeek hidle₁ hf₁ rfl rfl fun c₂ arrived endedBy hc₂ _ => ?_
    have hopen : Core.Open c₂.base (Core.arrived _ c.drive arrived) :=
      hc₂.base ▸ hidle₁.toOpen.arrived (Command.bytes c.drive c.recording (.seek cylinder)) c.drive arrived
    have hpending₂ := congrArg (· ++ [(c.drive.index ||| 0x20, arrived)]) hpending₁
    refine Attempt.ensures_bind.mpr ((ensures_senseHead hopen.idle hf₁ hpending₂).mono ?_ ?_)
    · rintro _ _ _ ⟨hgood, -⟩
      exact (Bool.false_ne_true (hgood.symm.trans hbad)).elim
    · rintro _ _ _ ⟨-, rfl⟩
      rfl
  exact Delivery.ensures_attempt.mpr hseek

/-- If no byte of a command gets in, even the reset breaks off, and a seek takes what it has left. -/
theorem seeks_lost_of_withheld (hc : Standing s.controller)
    (h : Linked s.controller s.machine.core) (hidle : Core.Idle s.controller.base s.machine.core)
    (hlimit : s.machine.core.faults.commandLimit = some 0) : ∃ cause s', cause.causedReset ∧
      s.perform (Operation.execute .version) = (.error cause, s') ∧ ∀ cylinder,
        (s'.cleared.perform (Operation.execute (.seek cylinder))).1 =
          .error (.abnormalTermination 0xC0 0 0) := by
  obtain ⟨cause, hcause, hreset⟩ :=
    Station.perform_of_ensures (ensures_version_refused h hidle hlimit)
  have hbreakdown : Breakdown s (s.perform (Operation.execute .version)).2 :=
    .execute rfl hreset (Prod.ext hcause rfl)
  refine ⟨cause, (s.perform (Operation.execute .version)).2, hreset, Prod.ext hcause rfl,
    fun cylinder => ?_⟩
  obtain ⟨s₁, command, cause₁, hreachable, hs'⟩ := hbreakdown.recovery hc
  obtain ⟨hat₁, hlimit₁⟩ := hreachable.at h.toAt
  obtain ⟨k₀, hreopened⟩ := Station.perform_of_ensures
    (ensures_recover_refused command cause₁ hat₁ hreachable.outOfReset (hlimit₁.trans hlimit))
  rw [hs']
  generalize (s₁.perform (Operation.recover command cause₁)).2 = s' at hreopened ⊢
  have hbad : indicatesFailure .seek (Drive.a.index ||| 0xC0) 0 0 = true := by decide
  obtain ⟨cause₂, hfails, hcause₂⟩ := Station.perform_of_ensures
    (ensures_seek_owing (hreopened.linked.under {}) (hreopened.idle.under {}) s'.harmless_cleared
      hreopened.owed hbad cylinder)
  exact hcause₂ ▸ hfails

theorem standing_of_discover {placement : Placement} {m m' : Simulated}
    (hrun : (Controller.discover placement).run Simulated.machine m = (some c, m')) : Standing c := by
  have hdiscover := Program.execution_run Simulated.machine (Controller.discover placement) m
  rw [hrun] at hdiscover
  exact hdiscover.recorded (yields_discover placement _) c rfl

/-- After a failure and the reset for it, a driver that has been discovered on a fresh machine seeks
wherever it is told to once the faults are gone. Only a machine that takes no byte of a command keeps it
from that. -/
theorem recovers_iff (faults : Faults) : ∃ c m,
    (Controller.discover ⟨0x3F0, some 6, some fdcChannel⟩).run Simulated.machine {} = (some c, m) ∧
      ((∀ s', Breakdown (Station.under ⟨c, m⟩ faults) s' → s'.Recovers) ↔
        faults.commandLimit ≠ some 0) := by
  obtain ⟨c, m, hrun, hfound⟩ := discover_fresh (some 6) (some fdcChannel)
  have hc : Standing c := standing_of_discover hrun
  refine ⟨c, m, hrun, ?_⟩
  have hlinked : Linked c (Station.under ⟨c, m⟩ faults).machine.core :=
    Linked.under (s := ⟨c, m⟩) hfound.linked faults
  have hidle : Core.Idle c.base (Station.under ⟨c, m⟩ faults).machine.core :=
    Core.Idle.under (s := ⟨c, m⟩) hfound.idle faults
  constructor
  · intro hrecovers hlimit
    obtain ⟨cause, s', hreset, hfails, hlost⟩ :=
      seeks_lost_of_withheld (s := Station.under ⟨c, m⟩ faults) hc hlinked hidle hlimit
    obtain ⟨report, s₂, hseek, -⟩ := hrecovers s' (.execute rfl hreset hfails) 0
    exact absurd ((congrArg Prod.fst hseek).symm.trans (hlost 0)) nofun
  · intro hlimit s' h
    exact h.recovers hc hlinked.toAt hlimit

/-- The seek to cylinder 2 that a version command has spoiled. -/
theorem seek_lost : ∃ c m cause s',
    (Controller.discover ⟨0x3F0, some 6, some fdcChannel⟩).run Simulated.machine {} = (some c, m) ∧
      cause.causedReset ∧ (Station.under ⟨c, m⟩ { commandLimit := some 0 }).perform
        (Operation.execute .version) = (.error cause, s') ∧
      (s'.cleared.perform (Operation.execute (.seek 2))).1 = .error (.abnormalTermination 0xC0 0 0) := by
  obtain ⟨c, m, hrun, hfound⟩ := discover_fresh (some 6) (some fdcChannel)
  obtain ⟨cause, s', hreset, hfails, hlost⟩ :=
    seeks_lost_of_withheld (s := Station.under ⟨c, m⟩ { commandLimit := some 0 })
      (standing_of_discover hrun) (Linked.under (s := ⟨c, m⟩) hfound.linked _)
      (Core.Idle.under (s := ⟨c, m⟩) hfound.idle _) rfl
  exact ⟨c, m, cause, s', hrun, hreset, hfails, hlost 2⟩

end Diskette
