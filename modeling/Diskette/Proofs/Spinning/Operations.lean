import Diskette.Proofs.Conduct.Enduring
import Diskette.Proofs.Spinning.Fifo
import Diskette.Proofs.Wire.Operations

/-!
Operations that leave the motors alone. A reset asserts the reset line and releases it again, and a storm closes the
gate; whatever else they call, the drive stays selected and its motor as it is.
-/
namespace Diskette

open Simulated (Order)

variable {α : Type} {base : UInt16} {terms : Terms} {motors : Motors} {drive : Drive} {Due : Nat → Prop}
  {c : Controller} {t : History Platform}

/-- Between two commands on the wire. -/
abbrev Idling (base : UInt16) (motors : Motors) (drive : Drive) : Controller → History Platform → Prop :=
  Steered base motors drive (· = 0)

/-- A payload may be under way, or may have been given up. -/
abbrev Unsettled (base : UInt16) (motors : Motors) (drive : Drive) : Controller → History Platform → Prop :=
  Steered base motors drive fun _ => True

theorem Steered.unsettled (h : Steered base motors drive Due c t) : Unsettled base motors drive c t :=
  h.weaken fun _ _ => trivial

theorem Steered.with_due {Due' : Nat → Prop} (h : Steered base motors drive Due c t)
    (hdue : Due' (Wire.heard base t).due) : Steered base motors drive Due' c t :=
  ⟨h.base_eq, h.outOfReset, h.motors_eq, h.drive_eq, h.output, hdue⟩

theorem alert_idling : Alert (minded base terms) (Idling base motors drive) :=
  Steered.alert Wire.none_due

theorem alert_unsettled : Alert (minded base terms) (Unsettled base motors drive) := Steered.alert fun _ => id

/-- What goes over the data port writes no register. -/
theorem conversing_unsettled : Conversing recorded (Unsettled base motors drive) where
  stance hc h := h.of_shadow (congrArg Controller.shadow hc :)
  plain hcall h := by
    refine ⟨trivial, ?_⟩
    rintro r _ rfl
    refine h.append (fun e he value hwrite => ?_) trivial
    obtain rfl := List.mem_singleton.mp he
    obtain rfl : _ = Platform.Call.output (Port.digitalOutput base) value := hwrite
    exact hcall
  data h := by
    refine ⟨trivial, ?_⟩
    rintro r _ rfl
    refine h.append (fun e he value hwrite => ?_) trivial
    obtain rfl := List.mem_singleton.mp he
    rw [h.base_eq] at hwrite
    exact Wire.digitalOutput_ne_data (Platform.Call.output.inj hwrite).1.symm
  specified _ h := h.of_shadow rfl

theorem keeps_modify {f : Controller → Controller} (hf : ∀ c, (f c).shadow = c.shadow) :
    Operation.Keeps (minded base terms) (Steered base motors drive Due) (modify f) :=
  .modify fun c _ h => h.of_shadow (hf c)

theorem permits_writeOutput {output : DigitalOutput} (hbase : c.base = base) (houtput : terms.writes output) :
    (minder base terms).permits t (.output (Port.digitalOutput c.base) output.encode) := by
  rw [hbase]
  refine ⟨fun _ => ?_, fun hport => absurd hport Wire.digitalOutput_ne_data⟩
  rwa [DigitalOutput.decode_encode]

section Gate

variable (hwrites : ∀ output : DigitalOutput, output.motors = motors → output.resetAsserted = false → terms.writes output)

include hwrites

theorem idling_closeGate : Operation.Keeps (minded base terms) (Idling base motors drive) Operation.closeGate := by
  refine .get_bind fun c t h => ?_
  rw [Operation.ensures_ite]
  split
  case isFalse => exact h
  case isTrue =>
    refine Operation.ensures_shadowed.mpr ⟨permits_writeOutput h.base_eq (hwrites _ h.motors_eq h.outOfReset), ?_⟩
    rintro - _ rfl
    rw [← h.motors_eq]
    exact h.write { c.shadow.output with gate := false } h.outOfReset h.drive_eq

theorem idling_disableDma : Operation.Keeps (minded base terms) (Idling base motors drive) Operation.disableDma := by
  have hdetachable : Detachable (minded base terms) (Idling base motors drive) := Steered.detachable Wire.none_due
  have hlog : Operation.Keeps (minded base terms) (Idling base motors drive) Operation.logPolled :=
    .get_bind fun c t h => by
      rw [Operation.ensures_ite]
      split
      · exact alert_idling.log _ c t h
      · exact h
  exact .bind hdetachable.maskIfHooked fun _ => .bind (idling_closeGate hwrites) fun _ =>
    .bind hdetachable.unbind fun _ => .bind hlog fun _ => keeps_modify (by exact fun _ => rfl)

theorem idling_noticeStorm : Operation.Keeps (minded base terms) (Idling base motors drive) Operation.noticeStorm :=
  alert_idling.noticeStorm (idling_disableDma hwrites)

end Gate

/-- A command that needs no motor and carries no payload. -/
theorem idling_transact (command : Command) (n : ResultLength) (hvalid : command.validate = .ok ())
    (hmotor : ¬command.needsMotor) (h : Idling base motors drive c t) :
    (Fifo.transact c.base (command.bytes c.drive c.recording) n).Ensures (minded base terms)
      (fun _ => Idling base motors drive c) t := by
  have hdata : command.transfer? = none := by
    cases command with
    | read | write => exact absurd rfl hmotor
    | _ => rfl
  have hpayload : (Order.ofBytes (command.bytes c.drive c.recording)).payload = 0 := by
    rw [Wire.payload_bytes hvalid, hdata]
  have hrests : Wire.Rests (Wire.heard base t).windows (Wire.heard base t) := ⟨rfl, h.due⟩
  have hwire : (Fifo.transact base (command.bytes c.drive c.recording) n).Ensures (Wire.tapped base)
      (fun _ => Wire.Rests (Wire.heard base t).windows) (Wire.heard base t) :=
    Wire.rests_transact n (Wire.framed_bytes _ _ _) hpayload hrests
  have hplain : ¬Opcode.NeedsMotor ((command.bytes c.drive c.recording).headD 0) :=
    fun hneeds => hmotor ((command.needsMotor_iff _ _).mp hneeds)
  have hrecord := conversing_unsettled.transact command n h.unsettled
  rw [h.base_eq] at hrecord ⊢
  refine (hrecord.with_record (hwire.with_wire (minded_transact n hplain (Wire.framed_bytes _ _ _) h.due))).mono ?_
  exact fun _ t' h' => h'.1.with_due h'.2.1.due

theorem idling_specify (path : DataPath) : Attempt.Keeps (minded base terms) (Idling base motors drive)
    (fun _ => Idling base motors drive) (Operation.specify path) := by
  have hvalid : (Command.standardSpecify path).validate = .ok () := by cases path <;> rfl
  intro c t h
  simp only [Operation.specify, Attempt.ensures_bind, Attempt.ensures_get, Attempt.ensures_of]
  refine (idling_transact _ (.exactly 0) hvalid Bool.false_ne_true h).mono ?_
  rintro (cause | result) t' h'
  · exact h'
  · exact h'.of_shadow rfl

theorem idling_respecify : Operation.Keeps (minded base terms) (Idling base motors drive) Operation.respecify :=
  .get_bind fun c t h => by
    refine Operation.Keeps.bind (.run (idling_specify c.path)) (fun r => ?_) c t h
    cases r with
    | ok => exact .pure
    | error cause => exact alert_idling.log _

theorem idling_drain (count : Nat) :
    Operation.Keeps (minded base terms) (Idling base motors drive) (Operation.drain count) := by
  induction count with
  | zero => exact .pure
  | succ count ih =>
    intro c t h
    simp only [Operation.drain, Operation.ensures_bind, Operation.ensures_get, Operation.ensures_lift]
    refine (idling_transact .senseInterrupt _ rfl Bool.false_ne_true h).mono ?_
    rintro (cause | result) t' h'
    · exact h'
    · dsimp only
      rw [Operation.ensures_ite]
      split
      · exact h'
      · exact Operation.Keeps.bind (alert_idling.log _) (fun _ => ih) c t' h'

section Reset

variable (hwrites : ∀ output : DigitalOutput, output.motors = motors → terms.writes output)

include hwrites

/-- To pulse the reset line drops what is due. The motors run on. -/
theorem idling_pulseReset (h : Unsettled base motors drive c t) : Operation.Ensures (minded base terms)
    Operation.pulseReset (fun _ => Idling base motors drive) c t := by
  have hpulse : Operation.Ensures (minded base terms) Operation.pulseReset (fun _ _ _ => True) c t := by
    simp only [Operation.pulseReset, Operation.ensures_bind, Operation.ensures_shadowed, Operation.ensures_lift]
    refine ⟨permits_writeOutput h.base_eq (hwrites _ h.motors_eq), fun _ _ _ => ?_⟩
    refine ⟨(by decide : Operation.resetHold ≠ Operation.startTime), fun _ _ _ => ?_⟩
    exact ⟨permits_writeOutput (c := c) h.base_eq (hwrites _ h.motors_eq), fun _ _ _ => trivial⟩
  have hbase : c.shadow.base = base := h.base_eq
  refine (Program.Ensures.with_record (ensures_pulseReset h.outOfReset) hpulse).mono ?_
  rintro ⟨⟨⟩, c'⟩ _ ⟨⟨hc, rfl⟩, -⟩
  obtain rfl : c' = c := hc
  exact ⟨h.base_eq, h.outOfReset, h.motors_eq, h.drive_eq, by simp [pulse, hbase], Wire.due_pulse hbase h.outOfReset⟩

theorem idling_resync (h : Idling base motors drive c t) :
    c.shadow.resync.Ensures (minded base terms) (fun _ => Idling base motors drive c) t := by
  have hbase : c.shadow.base = base := h.base_eq
  have hresync : c.shadow.resync.Ensures (minded base terms) (fun _ _ => True) t := by
    refine ⟨permits_writeOutput h.base_eq (hwrites _ h.motors_eq), fun _ _ _ => ?_⟩
    refine ⟨⟨fun hport => ?_, fun hport => ?_⟩, fun _ _ _ => trivial⟩
    · rw [hbase] at hport
      exact absurd hport Wire.configControl_ne_digitalOutput
    · rw [hbase] at hport
      exact absurd hport Wire.configControl_ne_data
  refine ((ensures_resync c.shadow).with_record hresync).mono ?_
  rintro - _ ⟨rfl, -⟩
  refine ⟨h.base_eq, h.outOfReset, h.motors_eq, h.drive_eq, ?_, ?_⟩
  · simp [rewrite, hbase, Wire.configControl_ne_digitalOutput]
  · exact (Wire.due_rewrite hbase h.outOfReset).trans h.due

/-- A reset makes up for a payload that is given up. -/
theorem idling_of_reset (h : Unsettled base motors drive c t) : Operation.Ensures (minded base terms)
    Operation.reset (fun _ => Idling base motors drive) c t := by
  refine Operation.ensures_bind.mpr ((alert_unsettled.log _ c t h).mono fun _ c₁ t₁ h₁ => ?_)
  refine Operation.ensures_bind.mpr ((idling_pulseReset hwrites h₁).mono fun _ c₂ t₂ h₂ => ?_)
  refine Operation.ensures_bind.mpr ((alert_idling.awaitRestart c₂ t₂ h₂).mono fun _ c₃ t₃ h₃ => ?_)
  refine Operation.ensures_bind.mpr ((alert_idling.mainStatus c₃ t₃ h₃).mono fun _ c₄ t₄ h₄ => ?_)
  rw [Operation.ensures_bind, Operation.ensures_get, Operation.ensures_bind, Operation.ensures_lift]
  refine (idling_resync hwrites h₄).mono fun _ t₅ h₅ => ?_
  refine Operation.Keeps.bind (idling_drain 4) (fun _ => ?_) c₄ t₅ h₅
  refine .bind alert_idling.acknowledgeLine fun _ => .bind (keeps_modify (by exact fun _ => rfl)) fun _ => ?_
  exact .bind idling_respecify fun _ => alert_idling.setPhase _

theorem idling_reset : Operation.Keeps (minded base terms) (Idling base motors drive) Operation.reset :=
  fun _ _ h => idling_of_reset hwrites h.unsettled

end Reset
end Diskette
