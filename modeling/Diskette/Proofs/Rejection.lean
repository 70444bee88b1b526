import Diskette.Proofs.Framing
import Diskette.Proofs.Standing
import Diskette.Simulated.Machine
import Mathlib.Logic.Basic

/-!
Refusals. A command is refused exactly when its own parameters are out of range, or what comes with it does not
fit it; a refusal happens before anything else does, so that it leaves all things as they were. What has been
accepted is not refused later on, and a storm is a notice and never a failure.
-/
namespace Diskette

variable {base : UInt16} {c c' : Controller} {h : History Platform} {command : Command}
  {transfer : Option Transfer} {capacity : Nat}

/-- No run of sectors of a disk. -/
def SectorSpan.OutOfRange (span : SectorSpan) : Prop :=
  1 < span.head.toNat ∨ span.sector.toNat = 0 ∨ span.count.toNat = 0 ∨ 7 < span.sizeCode.toNat ∨
    255 < span.sector.toNat + span.count.toNat - 1

/-- More than the fields of a specify hold. -/
def DriveTiming.OutOfRange (timing : DriveTiming) : Prop :=
  15 < timing.stepRate.toNat ∨ 15 < timing.headUnload.toNat ∨ 127 < timing.headLoad.toNat

def Command.OutOfRange : Command → Prop
  | .seekRelative offset => 255 < offset.toInt.natAbs
  | .readId head => 1 < head.toNat
  | .read span | .write span => span.OutOfRange
  | .specify timing _ => timing.OutOfRange
  | _ => False

/-- The other way, of another length than the run of sectors, or too long for its buffer or for the bounce
buffer. -/
def Transfer.Misfits (t : Transfer) (capacity : Nat) (span : SectorSpan) (direction : Direction) : Prop :=
  t.direction ≠ direction ∨ t.length ≠ span.count.toNat * (128 <<< span.sizeCode.toNat) ∨
    t.buffer.bytes.length < t.length ∨ capacity < t.length

/-- Not to be sent, with a bounce buffer of some capacity. -/
def Inadmissible (capacity : Nat) (command : Command) (transfer : Option Transfer) : Prop :=
  command.OutOfRange ∨
    match command.transfer?, transfer with
    | some (span, direction), some t => t.Misfits capacity span direction
    | none, none => False
    | _, _ => True

/-- The bounce buffer is of this capacity, whenever its size is asked for. -/
def HasCapacity (capacity : Nat) (h : History Platform) : Prop :=
  ∀ n, ⟨.memory .bounceSize, n⟩ ∈ h → n = capacity

/-- What becomes of a command that may or may not be sent. -/
structure Judged (capacity : Nat) (command : Command) (transfer : Option Transfer) (c : Controller)
    (outcome : Except Failure Report) (c' : Controller) (h : History Platform) : Prop where
  refused_iff : (∃ cause, outcome = .error (.invalidParameters cause)) ↔
    Inadmissible capacity command transfer
  /-- The size of the bounce buffer may have been asked for, and nothing else is done. -/
  untouched : Inadmissible capacity command transfer →
    c' = c ∧ ∀ e ∈ h, e.call = .memory .bounceSize
  no_storm : ∀ irq, outcome ≠ .error (.interruptStorm irq)

theorem SectorSpan.validate_eq_ok_iff_not_outOfRange {span : SectorSpan} :
    span.validate = .ok () ↔ ¬ span.OutOfRange := by
  have hzero : ∀ b : UInt8, b ≠ 0 ↔ b.toNat ≠ 0 := by
    intro b
    rw [Ne, ← UInt8.toNat_inj]
    rfl
  rw [validate_eq_ok_iff, UInt8.le_iff_toNat_le, UInt8.le_iff_toNat_le, hzero, hzero]
  simp only [OutOfRange, lastSector, not_or, Nat.not_lt]
  rfl

theorem Command.validate_eq_ok_iff : command.validate = .ok () ↔ ¬ command.OutOfRange := by
  cases command
  case read span => simp only [validate, OutOfRange, SectorSpan.validate_eq_ok_iff_not_outOfRange]
  case write span => simp only [validate, OutOfRange, SectorSpan.validate_eq_ok_iff_not_outOfRange]
  case seekRelative offset =>
    unfold validate OutOfRange
    split <;> simp_all
  case readId head =>
    unfold validate OutOfRange
    split <;> simp_all [UInt8.lt_iff_toNat_lt]
  case specify timing path =>
    unfold validate OutOfRange
    split <;> simp_all [DriveTiming.OutOfRange, UInt8.lt_iff_toNat_lt]
  all_goals simp [validate, OutOfRange]

theorem Transfer.validate_eq_ok_iff_not_inadmissible {t : Transfer} :
    t.validate command capacity = .ok () ↔
      command.transfer?.isSome ∧ ¬ Inadmissible capacity command (some t) := by
  rw [Transfer.validate_eq_ok_iff]
  constructor
  · rintro ⟨⟨span, hfits⟩, hcapacity⟩
    have hspan := Command.validate_span hfits.data hfits.valid
    have hlength := hfits.length_eq.trans (SectorSpan.byteLength_eq_shift hspan)
    refine ⟨by simp [hfits.data], ?_⟩
    rintro (hrange | hmisfits)
    · exact Command.validate_eq_ok_iff.mp hfits.valid hrange
    · rw [hfits.data] at hmisfits
      rcases hmisfits with hdirection | hother | hshort | hlarge
      · exact hdirection rfl
      · exact hother hlength
      · exact absurd hfits.length_le (Nat.not_le.mpr hshort)
      · exact absurd hcapacity (Nat.not_le.mpr hlarge)
  · rintro ⟨hsome, hadmissible⟩
    obtain ⟨⟨span, direction⟩, hdata⟩ := Option.isSome_iff_exists.mp hsome
    simp only [Inadmissible, hdata, not_or, Transfer.Misfits, Nat.not_lt, ne_eq, not_not] at hadmissible
    obtain ⟨hrange, rfl, hlength, hbuffer, hcapacity⟩ := hadmissible
    have hvalid := Command.validate_eq_ok_iff.mpr hrange
    have hspan := Command.validate_span hdata hvalid
    exact ⟨⟨span, hvalid, hdata, hlength.trans (SectorSpan.byteLength_eq_shift hspan).symm, hbuffer⟩, hcapacity⟩

/-- Before a command is sent it is judged, and nothing else is done. -/
theorem ensures_prepare_judged (capacity : Nat) : Operation.Ensures recorded (Operation.prepare command transfer)
    (fun r c' t => c' = c ∧ (∀ e ∈ t, e.call = .memory .bounceSize) ∧
      (HasCapacity capacity t → ((∃ cause, r = .error cause) ↔ Inadmissible capacity command transfer)))
    c [] := by
  have haccept : (Operation.accept command transfer).Ensures recorded (fun r t =>
      (∀ e ∈ t, e.call = .memory .bounceSize) ∧ (HasCapacity capacity t →
        (r = .ok () ∧ command.validate = .ok () ↔ ¬ Inadmissible capacity command transfer))) [] := by
    unfold Operation.accept
    split
    · rename_i hdata
      exact ⟨by simp, fun _ => by simp [Inadmissible, hdata]⟩
    · rename_i hdata
      exact ⟨by simp, fun _ => by simp [Inadmissible, hdata]⟩
    · rename_i t hdata
      refine Program.ensures_recorded.mpr fun n => ⟨by simp, fun hcapacity => ?_⟩
      obtain rfl : n = capacity := hcapacity n (by simp)
      rw [Transfer.validate_eq_ok_iff_not_inadmissible, Command.validate_eq_ok_iff]
      simp only [hdata, Option.isSome_some, true_and, and_iff_left_iff_imp]
      exact fun hadmissible hrange => hadmissible (.inl hrange)
    · rename_i hdata
      exact ⟨by simp, fun _ => by simp [Inadmissible, hdata, Command.validate_eq_ok_iff]⟩
  simp only [Operation.prepare, Operation.ensures_bind, Operation.ensures_lift]
  apply haccept.mono
  rintro (cause | _) t ⟨hcalls, hexact⟩
  · refine ⟨rfl, hcalls, fun hcapacity => ?_⟩
    have hinadmissible := hexact hcapacity
    simp only [reduceCtorEq, false_and, false_iff, not_not] at hinadmissible
    simp [hinadmissible]
  · refine ⟨rfl, hcalls, fun hcapacity => ?_⟩
    rw [← not_iff_not, ← hexact hcapacity]
    unfold Command.encode
    cases hvalid : command.validate <;> simp

/-- A command is refused at once, or else undertaken. -/
theorem refused_or_undertaken {outcome : Except Failure Report} {delivered : List UInt8}
    (hexec : Execution ((Operation.perform command transfer).run c) h ((outcome, delivered), c')) :
    (∃ cause, Execution ((Operation.prepare command transfer).run c) h (.error cause, c') ∧
      outcome = .error (.invalidParameters cause) ∧ delivered = []) ∨
    ∃ prelude attempt later bytes pass c₁ c₂, h = prelude ++ attempt ++ later ∧
      Execution ((Operation.prepare command transfer).run c) prelude (.ok bytes, c₁) ∧
      Execution ((Operation.undertake command bytes transfer).run c₁) attempt (pass, c₂) ∧
      ∀ cause, outcome = .error cause → pass.outcome = .error cause := by
  obtain ⟨prelude, rest, prepared, c₁, rfl, hprepare, hrest⟩ := Execution.of_operation_bind hexec
  cases prepared with
  | error cause =>
    obtain ⟨rfl, hresult⟩ := Execution.of_done hrest
    simp only [Prod.mk.injEq] at hresult
    obtain ⟨⟨rfl, rfl⟩, rfl⟩ := hresult
    exact .inl ⟨cause, by rwa [List.append_nil], rfl, rfl⟩
  | ok bytes =>
    obtain ⟨attempt, later, pass, c₂, rfl, hundertake, hend⟩ := Execution.of_operation_bind hrest
    refine .inr ⟨prelude, attempt, later, bytes, pass, c₁, c₂, by simp, hprepare, hundertake, ?_⟩
    obtain ⟨early, outcome', passed⟩ := pass
    cases outcome' with
    | ok report =>
      obtain ⟨t₁, t₂, report', c₃, -, -, hdone⟩ := Execution.of_operation_bind hend
      obtain ⟨-, hresult⟩ := Execution.of_done hdone
      simp only [Prod.mk.injEq] at hresult
      rw [hresult.1.1]
      nofun
    | error cause' =>
      obtain ⟨t₁, t₂, ⟨⟩, c₃, -, -, hdone⟩ := Execution.of_operation_bind hend
      obtain ⟨-, hresult⟩ := Execution.of_done hdone
      simp only [Prod.mk.injEq] at hresult
      rw [hresult.1.1]
      exact fun cause hcause => hcause

theorem judged_of_perform (hc : Standing c) {outcome : Except Failure Report} {delivered : List UInt8}
    (hexec : Execution ((Operation.perform command transfer).run c) h ((outcome, delivered), c'))
    (hcapacity : HasCapacity capacity h) :
    Judged capacity command transfer c outcome c' h ∧
      (Inadmissible capacity command transfer → delivered = []) := by
  rcases refused_or_undertaken hexec with ⟨cause, hprepare, rfl, rfl⟩ | hundertaken
  · obtain ⟨hc', hcalls, hexact⟩ := hprepare.recorded (ensures_prepare_judged capacity)
    have hinadmissible := (hexact hcapacity).mp ⟨cause, rfl⟩
    exact ⟨⟨by simp [hinadmissible], fun _ => ⟨hc', hcalls⟩, nofun⟩, fun _ => rfl⟩
  · obtain ⟨prelude, attempt, later, bytes, pass, c₁, c₂, rfl, hprepare, hundertake, hcause⟩ := hundertaken
    obtain ⟨rfl, -, hexact⟩ := hprepare.recorded (ensures_prepare_judged capacity)
    have hadmissible : ¬ Inadmissible capacity command transfer := by
      intro hinadmissible
      obtain ⟨cause, hrefused⟩ := (hexact fun n hn => hcapacity n (by simp [hn])).mpr hinadmissible
      simp at hrefused
    have hhard := (hundertake.recorded (ensures_undertake command bytes transfer hc)).1
    have hreset : ∀ cause, outcome = .error cause → cause.causedReset := by
      intro cause houtcome
      rw [hcause cause houtcome] at hhard
      exact hhard
    refine ⟨⟨⟨?_, ?_⟩, ?_, ?_⟩, ?_⟩
    · rintro ⟨cause, houtcome⟩
      exact absurd (hreset _ houtcome) (by simp [Failure.causedReset])
    · exact fun h => absurd h hadmissible
    · exact fun h => absurd h hadmissible
    · intro irq houtcome
      exact absurd (hreset _ houtcome) (by simp [Failure.causedReset])
    · exact fun h => absurd h hadmissible

/-- Wherever a run of the driver has got to, and whatever the platform does, a command is refused exactly when
it is inadmissible. Then the controller and the caller's buffer are as they were; otherwise a failure is neither
a refusal nor a storm. -/
theorem refusal_exact {histories : List (History Platform)} (hrun : Run base histories (some c))
    (command : Command) (capacity : Nat) :
    (∀ h outcome c', HasCapacity capacity h →
      Execution ((Operation.execute command).run c) h (outcome, c') →
        Judged capacity command none c outcome c' h) ∧
    ∀ transfer h outcome buffer c', HasCapacity capacity h →
      Execution ((Operation.executeWith command transfer).run c) h ((outcome, buffer), c') →
        Judged capacity command (some transfer) c outcome c' h ∧
          (Inadmissible capacity command (some transfer) → buffer = transfer.buffer) := by
  have hc : Standing c := hrun.standing c rfl
  constructor
  · intro h outcome c' hcapacity hexec
    obtain ⟨delivered, hperform⟩ := hexec.of_execute
    exact (judged_of_perform hc hperform hcapacity).1
  · intro transfer h outcome buffer c' hcapacity hexec
    obtain ⟨delivered, hperform, rfl⟩ := hexec.of_executeWith
    obtain ⟨hjudged, hdelivered⟩ := judged_of_perform hc hperform hcapacity
    refine ⟨hjudged, fun hinadmissible => ?_⟩
    rw [hdelivered hinadmissible]
    exact PayloadBuffer.receive_nil transfer.buffer

set_option maxRecDepth 4000 in
/-- One sector to be read, through a bounce buffer that holds half of it. -/
theorem refusal_exact_large :
    let command := Command.read ⟨0, 0, 1, 0, 1⟩
    let transfer := Transfer.read (List.replicate 128 0)
    let s := Session.acts Simulated.machine 0x3F0 { machine := {} } [.probe (some 6) (some 2)]
    ∃ c ∈ s.controller, ∃ h outcome buffer c', HasCapacity 64 h ∧
      Execution ((Operation.executeWith command transfer).run c) h ((outcome, buffer), c') ∧
      outcome = .error (.invalidParameters .exceedsBounceBuffer) ∧
      Judged 64 command (some transfer) c outcome c' h ∧
      (Inadmissible 64 command (some transfer) → buffer = transfer.buffer) := by
  intro command transfer s
  have hrun : Run 0x3F0 s.histories s.controller := Session.run_acts _ _ _ .start
  have hfound : s.controller.isSome := by decide +kernel
  obtain ⟨c, hc⟩ := Option.isSome_iff_exists.mp hfound
  have hcapacity : HasCapacity 64 [⟨.memory .bounceSize, (64 : Nat)⟩] := by simp [HasCapacity]
  have hexec : Execution ((Operation.executeWith command transfer).run c)
      [⟨.memory .bounceSize, (64 : Nat)⟩]
      ((.error (.invalidParameters .exceedsBounceBuffer), transfer.buffer), c) := .call (.done _)
  exact ⟨c, hc, _, _, _, c, hcapacity, hexec, rfl,
    (refusal_exact (hc ▸ hrun) command 64).2 transfer _ _ _ _ hcapacity hexec⟩

end Diskette
