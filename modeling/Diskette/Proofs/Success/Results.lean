import Diskette.Proofs.Conduct.Requests
import Diskette.Proofs.Success.Signs

/-!
What a command reports when it goes well. The result is the last that was read from the data port; the status and the
cylinder are taken from it, and nothing else has touched them since the command was begun.
-/
namespace Diskette

variable {x c c' : Controller} {t u : History Platform} {command : Command} {bytes result : List UInt8} {sign : EndSign}

theorem ResultBytes.getD_toList {n : ResultLength} (r : ResultBytes n) (i : Fin n.fewest) (default : UInt8) :
    r.toList.getD i.val default = r.byte i := by
  have hbyte : r.toList[i.val]? = some (r.byte i) := r.byte?_val i
  rw [List.getD_eq_getElem?_getD, hbyte, Option.getD_some]

namespace Command

/-- How long the result is that is reported. A command that moves the head reports that of its sense. -/
def reportedLength (command : Command) : ResultLength :=
  match command.kind with
  | .seek => .exactly 2
  | _ => command.resultLength

/-- The status that a result leaves. -/
def statusAfter (result : List UInt8) (status : ResultStatus) : Command → ResultStatus
  | recalibrate | seek _ | seekRelative _ | senseInterrupt => { status with st0 := result.getD 0 0 }
  | senseDrive => { status with st3 := result.getD 0 0 }
  | readId _ | read _ | write _ =>
    { status with st0 := result.getD 0 0, st1 := result.getD 1 0, st2 := result.getD 2 0 }
  | specify _ _ | version => status

/-- The cylinder that a result leaves: the one before it, unless the result tells another. -/
def cylinderAfter (result : List UInt8) (cylinder : UInt8) : Command → UInt8
  | recalibrate | seek _ | seekRelative _ | senseInterrupt => result.getD 1 cylinder
  | readId _ | read _ | write _ => result.getD 3 cylinder
  | senseDrive | specify _ _ | version => cylinder

/-- A status that does not speak of a failure. A transfer may run out its last sector without a terminal count. -/
def Succeeds (status : ResultStatus) : Command → Prop
  | recalibrate | seek _ | seekRelative _ | readId _ => InterruptCode.ofSt0 status.st0 = .normal
  | read _ | write _ => InterruptCode.ofSt0 status.st0 = .normal ∨
      InterruptCode.ofSt0 status.st0 = .abnormal ∧ status.st1 = endOfCylinder ∧ status.st2 = 0
  | _ => True

theorem kind_of_data {command : Command} {data : SectorSpan × Direction} (h : command.transfer? = some data) :
    command.kind = .transfer := by
  cases command <;> first | rfl | exact absurd h nofun

section Kinds

variable {command : Command} {status : ResultStatus}

theorem statusAfter_of_seek (hkind : command.kind = .seek) (result : List UInt8) (status : ResultStatus) :
    command.statusAfter result status = { status with st0 := result.getD 0 0 } := by
  cases command <;> first | rfl | exact absurd hkind nofun

theorem cylinderAfter_of_seek (hkind : command.kind = .seek) (result : List UInt8) (cylinder : UInt8) :
    command.cylinderAfter result cylinder = result.getD 1 cylinder := by
  cases command <;> first | rfl | exact absurd hkind nofun

theorem succeeds_of_seek (hkind : command.kind = .seek) (hcode : InterruptCode.ofSt0 status.st0 = .normal) :
    command.Succeeds status := by
  cases command <;> first | exact hcode | exact absurd hkind nofun

theorem resultLength_of_transfer (hkind : command.kind = .transfer) :
    command.resultLength = .exactly maxResult := by
  cases command <;> first | rfl | exact absurd hkind nofun

theorem succeeds_of_transfer (hkind : command.kind = .transfer)
    (hcode : InterruptCode.ofSt0 status.st0 = .normal ∨
      InterruptCode.ofSt0 status.st0 = .abnormal ∧ status.st1 = endOfCylinder ∧ status.st2 = 0) :
    command.Succeeds status := by
  cases command <;> first | exact hcode | exact absurd hkind nofun

end Kinds

end Command

theorem normal_of_not_failure {kind : CommandKind} {st0 st1 st2 : UInt8}
    (h : indicatesFailure kind st0 st1 st2 = false) (hkind : kind ≠ .transfer) : InterruptCode.ofSt0 st0 = .normal := by
  unfold indicatesFailure at h
  cases hcode : InterruptCode.ofSt0 st0 with
  | normal => rfl
  | abnormal =>
    cases kind with
    | transfer => exact absurd rfl hkind
    | _ => simp [hcode] at h
  | _ => simp [hcode] at h

theorem ended_of_not_failure {kind : CommandKind} {st0 st1 st2 : UInt8}
    (h : indicatesFailure kind st0 st1 st2 = false) : InterruptCode.ofSt0 st0 = .normal ∨
      InterruptCode.ofSt0 st0 = .abnormal ∧ st1 = endOfCylinder ∧ st2 = 0 := by
  unfold indicatesFailure at h
  cases hcode : InterruptCode.ofSt0 st0 with
  | normal => exact .inl rfl
  | abnormal =>
    rw [hcode] at h
    simp only [Bool.not_eq_false', Bool.and_eq_true, beq_iff_eq] at h
    exact .inr ⟨rfl, h.1.2, h.2⟩
  | _ => simp [hcode] at h

/-- A controller that has taken in nothing from a command yet. -/
structure Unaltered (x c : Controller) : Prop where
  status : c.status = x.status
  cylinder : c.cylinder = x.cylinder
  base_eq : c.base = x.base
  line_eq : c.line = x.line
  path : c.path = .channel → x.path = .channel

namespace Unaltered

theorem of_stance (h : Unaltered x c) (hc : c'.stance = c.stance) : Unaltered x c' := by
  have hstatus : c'.stance.status = c.stance.status := by rw [hc]
  have hcylinder : c'.stance.cylinder = c.stance.cylinder := by rw [hc]
  have hbase : c'.stance.base = c.stance.base := by rw [hc]
  have hline : c'.stance.line = c.stance.line := by rw [hc]
  have hpath : c'.stance.path = c.stance.path := by rw [hc]
  exact ⟨Eq.trans hstatus h.status, Eq.trans hcylinder h.cylinder, Eq.trans hbase h.base_eq, Eq.trans hline h.line_eq,
    fun hchannel => h.path (hpath.symm.trans hchannel)⟩

theorem writeOutput (f : Shadow → DigitalOutput) :
    Operation.Keeps recorded (fun c _ => Unaltered x c) (Operation.shadowed fun s => s.writeOutput (f s)) := by
  intro c t h
  rw [Operation.ensures_shadowed]
  exact Program.ensures_recorded.mpr fun _ => ⟨h.status, h.cylinder, h.base_eq, h.line_eq, h.path⟩

end Unaltered

theorem conversing_unaltered (x : Controller) : Conversing recorded fun c _ => Unaltered x c where
  stance hc h := h.of_stance hc
  plain _ h := ⟨trivial, fun _ _ _ => h⟩
  data h := ⟨trivial, fun _ _ _ => h⟩
  specified _ h := ⟨h.status, h.cylinder, h.base_eq, h.line_eq, h.path⟩

theorem resettable_unaltered (x : Controller) : Resettable recorded fun c _ => Unaltered x c where
  toConversing := conversing_unaltered x
  spinUp _ := Unaltered.writeOutput _
  reset := by
    have hasserts := fun asserted => Unaltered.writeOutput (x := x) fun s => { s.output with resetAsserted := asserted }
    have hhold : Operation.Keeps recorded (fun c _ => Unaltered x c)
        (liftM (Platform.delay Operation.resetHold) : Operation Unit) :=
      .lift fun _ _ h => (conversing_unaltered x).routine (.perform trivial) h
    refine (conversing_unaltered x).reset (.bind (hasserts true) fun _ => .bind hhold fun _ => hasserts false) ?_
    exact fun c t h => (Program.only_true _).ensures (K := fun _ => Unaltered x c)
      (fun _ _ _ h => ⟨trivial, fun _ _ _ => h⟩) h

theorem leavable_unaltered (x : Controller) : Leavable recorded fun c _ => Unaltered x c where
  stance hc h := h.of_stance hc
  givesUp _ h := ⟨trivial, fun _ _ _ => h⟩
  takePrior h := ⟨h.status, h.cylinder, h.base_eq, h.line_eq, h.path⟩
  unhook h := ⟨h.status, h.cylinder, h.base_eq, h.line_eq, h.path⟩
  toPort h := ⟨h.status, h.cylinder, h.base_eq, h.line_eq, nofun⟩
  writeOutput _ := Unaltered.writeOutput _

/-- Calls that read no port. -/
def Unread (call : Platform.Call) : Prop := ∀ port, call ≠ .input port

theorem bytesRead_append (base : UInt16) (t u : History Platform) :
    bytesRead base (t ++ u) = bytesRead base t ++ bytesRead base u := List.filterMap_append

theorem bytesRead_unread {base : UInt16} (hu : ∀ e ∈ u, Unread e.call) : bytesRead base u = [] := by
  refine List.filterMap_eq_nil_iff.mpr ?_
  rintro ⟨call, reply⟩ he
  cases call with
  | input port => exact absurd rfl (hu _ he port)
  | _ => rfl

theorem looked_unread {base : UInt16} (hu : ∀ e ∈ u, Unread e.call) : latest (looked base) u = none := by
  refine latest_eq_none ?_
  rintro ⟨call, reply⟩ he
  cases call with
  | input port => exact absurd rfl (hu _ he port)
  | _ => rfl

namespace Fifo

variable {base : UInt16} {n : ResultLength}

/-- A result is what was read last. -/
theorem ensures_receive_told : (Platform.uninterrupted (receive base n)).Ensures recorded
    (fun r t' => ∀ result, r = .ok result → result.toList <:+ bytesRead base t') t := by
  refine (Program.ensures_execution _ t).mono ?_
  rintro r _ ⟨u, rfl, hu⟩ result hresult
  obtain ⟨v, hv, hwindow⟩ := Traffic.uninterrupted hu
  obtain ⟨bytes, htraffic, hbytes⟩ := traffic_receive hv
  rw [bytesRead_append, (hwindow htraffic).read_eq, hbytes result hresult]
  exact List.suffix_append _ _

/-- The controller comes to rest before anything else is read. -/
theorem ensures_finish_told (h : result <:+ bytesRead base t) : (finish base).Ensures recorded
    (fun r t' => r = .ok () → AtRest base t' ∧ result <:+ bytesRead base t') t := by
  refine (ensures_finish_atRest.and (only_finish.recorded t)).mono ?_
  rintro r _ ⟨hrest, u, rfl, hu⟩ hr
  have hlooks : bytesRead base u = [] := (Traffic.of_silent fun e he => not_onPort_of_looks (hu e he)).read_eq
  exact ⟨hrest hr, by rwa [bytesRead_append, hlooks, List.append_nil]⟩

theorem ensures_transact_told : (transact base bytes n).Ensures recorded (fun r t' => ∀ result, r = .ok result →
    AtRest base t' ∧ result.toList <:+ bytesRead base t') t := by
  refine Program.ensures_run_bind.mpr ((Program.ensures_execution _ t).mono ?_)
  rintro (_ | _) t₁ -
  · exact fun _ => nofun
  refine Program.ensures_run_bind.mpr ((Program.ensures_execution _ t₁).mono ?_)
  rintro (_ | _) t₂ -
  · exact fun _ => nofun
  refine Program.ensures_run_bind.mpr (ensures_receive_told.mono ?_)
  rintro (_ | result) t₃ htold
  · exact fun _ => nofun
  refine Program.ensures_run_bind.mpr ((ensures_finish_told (htold result rfl)).mono ?_)
  rintro (_ | _) t₄ hrest
  · exact fun _ => nofun
  · rintro _ ⟨⟩
    exact hrest rfl

end Fifo

theorem ensures_takeResult_told (n : ResultLength) : Attempt.Ensures recorded (Operation.takeResult n)
    (fun result c' t' => c'.stance = c.stance ∧ AtRest c.base t' ∧ result.toList <:+ bytesRead c.base t')
    (fun _ _ _ => True) c t := by
  refine Attempt.ensures_bind.mpr (Attempt.ensures_setPhase.mpr (Attempt.ensures_bind.mpr ?_))
  rw [Attempt.ensures_getThe, Attempt.ensures_bind, Attempt.ensures_of]
  refine Fifo.ensures_receive_told.mono ?_
  rintro (_ | result) t₁ htold
  · trivial
  refine Attempt.ensures_bind.mpr (Attempt.ensures_of.mpr ((Fifo.ensures_finish_told (htold result rfl)).mono ?_))
  rintro (_ | _) t₂ hrest
  · trivial
  · exact ⟨rfl, hrest rfl⟩

/-- An interrupt is noticed only on the line that is in use, when it has fired for the command. -/
def Noticed (x : Controller) (command : Command) (sign : EndSign) (t : History Platform) : Prop :=
  sign = .interrupt → (command.kind = .seek ∨ command.kind = .transfer) ∧ x.path = .channel ∧
    ∃ l ∈ x.line, FiredFor x.base (command.bytes x.drive x.recording) l t

theorem Noticed.append (h : Noticed x command sign t) (u : History Platform) : Noticed x command sign (t ++ u) := by
  intro hsign
  obtain ⟨hkind, hpath, l, hl, hfired⟩ := h hsign
  exact ⟨hkind, hpath, l, hl, hfired.append u⟩

theorem conversing_noticed (x : Controller) (command : Command) (sign : EndSign) :
    Conversing recorded fun c t => Unaltered x c ∧ Noticed x command sign t where
  stance hc h := ⟨h.1.of_stance hc, h.2⟩
  plain _ h := by
    refine ⟨trivial, ?_⟩
    rintro r _ rfl
    exact ⟨h.1, h.2.append _⟩
  data h := by
    refine ⟨trivial, ?_⟩
    rintro r _ rfl
    exact ⟨h.1, h.2.append _⟩
  specified _ h := ⟨⟨h.1.status, h.1.cylinder, h.1.base_eq, h.1.line_eq, h.1.path⟩, h.2⟩

/-- The result is what was read last, and the controller came to rest after it. -/
structure Ending (x : Controller) (command : Command) (result : List UInt8) (sign : EndSign) (t : History Platform) :
    Prop where
  told : result <:+ bytesRead x.base t
  atRest : AtRest x.base t
  noticed : Noticed x command sign t

theorem Ending.append (h : Ending x command result sign t) (hu : ∀ e ∈ u, Unread e.call) :
    Ending x command result sign (t ++ u) := by
  obtain ⟨htold, ⟨status, hlast, hidle⟩, hnoticed⟩ := h
  refine ⟨?_, ⟨status, ?_, hidle⟩, hnoticed.append u⟩
  · rwa [bytesRead_append, bytesRead_unread hu, List.append_nil]
  · rw [latest_append, looked_unread hu, Option.none_or, hlast]

/-- What is told by a report: its result, as the controller has taken it in. -/
structure Attained (x : Controller) (command : Command) (report : Report) (c : Controller) (t : History Platform) : Prop
    extends Ending x command report.result report.endedBy t where
  fewest_le : command.reportedLength.fewest ≤ report.result.length
  le_most : report.result.length ≤ command.reportedLength.most
  report_status : report.status = c.status
  status : c.status = command.statusAfter report.result x.status
  cylinder : c.cylinder = command.cylinderAfter report.result x.cylinder
  succeeds : command.Succeeds c.status

end Diskette
