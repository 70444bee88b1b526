import Diskette.Proofs.Simulated.Steps

/-!
Commands without a payload on a simulated controller that no fault hinders: each of them comes to its
end, and leaves the controller settled.
-/
namespace Diskette

open Simulated
open Diskette.Core (surroundings)

variable {c c' : Controller} {k k₁ : Core} {m : Simulated} {command : Command} {drive : Drive}
  {flags : RecordingMode}

theorem ne_nil_of_order {bytes : List UInt8} (h : bytes.length = Order.length (bytes.headD 0)) :
    bytes ≠ [] := by
  rintro rfl
  exact absurd h (by decide)

/-- An immediate command that is obeyed with an answer, and whose answer is no failure. -/
theorem goes_runImmediate {bs : List UInt8} {Q : Controller → Core → Prop} (h : Settled c k)
    (hf : k.faults.Harmless) (hvalid : command.validate = .ok ())
    (hobey : ∀ m : Simulated, m.core = k.took (command.bytes drive flags) →
      (m.obey (command.order drive)).core = k₁.answer bs)
    (hopen : Core.Open c.base k₁) (hfaults : k₁.faults = k.faults)
    (hfewest : command.resultLength.fewest ≤ bs.length)
    (hmost : bs.length ≤ min command.resultLength.most maxResult)
    (habsorb : ∀ result c', result.toList = bs → Abides c c' →
      Goes (Operation.absorb command result) (fun _ => Q) c' (k₁.answer [])) :
    Goes (Operation.runImmediate command (command.bytes drive flags))
      (fun _ => Q) c k := by
  have hlength := Command.length_bytes command drive flags
  have hmost' : bs.length ≤ command.resultLength.most := by omega
  have hsend := goes_sendBytes h.idle hf (ne_nil_of_order hlength)
    hlength false
  refine Attempt.ensures_bind.mpr (hsend.mono ?_ fun _ _ _ => id)
  rintro _ c₁ _ ⟨hc₁, m, hm, rfl⟩
  rw [Command.ofBytes_bytes hvalid, hobey m hm]
  have hf₁ : k₁.faults.Harmless := hfaults ▸ hf
  rw [← hc₁.base] at hopen
  have hanswer := goes_awaitAnswer (n := command.resultLength) hopen hf₁ hmost'
  refine Attempt.ensures_bind.mpr (hanswer.mono ?_ fun _ _ _ => id)
  rintro _ c₁ _ ⟨rfl, rfl⟩
  refine Attempt.ensures_bind.mpr ((goes_takeResult hopen hf₁ hfewest hmost).mono ?_ fun _ _ _ => id)
  rintro result c₂ _ ⟨hresult, hc₂, rfl⟩
  refine Attempt.ensures_bind.mpr ((habsorb result c₂ hresult (hc₁.trans hc₂)).mono ?_ fun _ _ _ => id)
  intro _ c₃ k₃ hQ
  exact hQ

/-- The controller after a command that was obeyed and left nothing pending. -/
theorem Settled.answered (h : Settled c k) (hc : Abides c c') (bytes : List UInt8) :
    Settled c' ((k.took bytes).answer []) :=
  h.same hc ((Core.same_took k bytes).trans (Core.same_answer _ [])) rfl rfl h.quiet

theorem ofSt0_unit (drive : Drive) {head : UInt8} (hhead : head ≤ 1) :
    InterruptCode.ofSt0 ((head <<< 2) ||| drive.index) = .normal := by
  have h : ∀ n ≤ 1, InterruptCode.ofSt0 ((UInt8.ofNat n <<< 2) ||| drive.index) = .normal := by
    cases drive <;> decide
  simpa using h head.toNat (UInt8.le_iff_toNat_le.mp hhead)

theorem head_le_of_readId {head : UInt8} (h : (Command.readId head).validate = .ok ()) :
    head ≤ 1 := by
  change (if head > 1 then Except.error Rejection.headOutOfRange else .ok ()) = _ at h
  split_ifs at h with hlt
  exact UInt8.not_lt.mp hlt

/-- The driver after a command, and the controller as it was before it. -/
structure Served (c : Controller) (k : Core) (c' : Controller) (k' : Core) : Prop where
  setting : c'.setting = c.setting
  settled : Settled c' k'
  kept : Kept k k'

theorem goes_checkStatus {kind : CommandKind} {result : ResultBytes (.exactly maxResult)}
    {bs : List UInt8} (hresult : result.toList = bs)
    (hgood : indicatesFailure kind (bs.getD 0 0) (bs.getD 1 0) (bs.getD 2 0) = false) :
    Goes (Operation.checkStatus kind result) (fun _ c' k' => c' = c ∧ k' = k) c k := by
  have hst0 : result.byte 0 = bs.getD 0 0 := byte_of_toList hresult 0
  have hst1 : result.byte 1 = bs.getD 1 0 := byte_of_toList hresult 1
  have hst2 : result.byte 2 = bs.getD 2 0 := byte_of_toList hresult 2
  unfold Operation.checkStatus
  rw [hst0, hst1, hst2]
  apply Attempt.ensures_ite.mpr
  rw [if_neg (Bool.eq_false_iff.mp hgood)]
  exact ⟨rfl, rfl⟩

/-- A command that changes nothing but what is answered. -/
theorem goes_answered {bs : List UInt8} (h : Settled c k) (hf : k.faults.Harmless)
    (hvalid : command.validate = .ok ())
    (hobey : ∀ m : Simulated, m.core = k.took (command.bytes drive flags) →
      (m.obey (command.order drive)).core = (k.took (command.bytes drive flags)).answer bs)
    (hfewest : command.resultLength.fewest ≤ bs.length)
    (hmost : bs.length ≤ min command.resultLength.most maxResult)
    (habsorb : ∀ result c' k', result.toList = bs →
      Goes (Operation.absorb command result) (fun _ c'' k'' => Abides c' c'' ∧ k'' = k') c' k') :
    Goes (Operation.runImmediate command (command.bytes drive flags))
      (fun _ => Served c k) c k := by
  apply goes_runImmediate h hf hvalid hobey (h.idle.took _) rfl hfewest hmost
  intro result c₁ hresult hc₁
  refine (habsorb result c₁ _ hresult).mono ?_ fun _ _ _ => id
  rintro _ c₂ _ ⟨hc₂, rfl⟩
  exact ⟨(hc₁.trans hc₂).setting, h.answered (hc₁.trans hc₂) _, rfl, rfl, rfl, rfl⟩

theorem goes_immediate (h : Settled c k) (hf : k.faults.Harmless)
    (hkind : command.kind = .immediate) (hvalid : command.validate = .ok ()) :
    Goes (Operation.runImmediate command (command.bytes drive flags))
      (fun _ => Served c k) c k := by
  cases command with
  | senseInterrupt =>
    have hobey : ∀ m : Simulated, m.core = k.took (Command.senseInterrupt.bytes drive flags) →
        (m.obey (Command.senseInterrupt.order drive)).core =
          (k.took (Command.senseInterrupt.bytes drive flags)).answer [0x80] := by
      intro m hm
      have hquiet : m.fdc.pending = [] := (congrArg (fun k => k.fdc.pending) hm).trans h.quiet
      simp only [Command.order, obey, hquiet]
      exact congrArg (Core.answer · [0x80]) hm
    refine goes_answered h hf hvalid hobey (by decide) (by decide) fun _ _ _ _ => ?_
    exact ⟨⟨rfl, rfl⟩, rfl⟩
  | senseDrive =>
    have hobey : ∀ m : Simulated, (m.obey (.senseDrive drive 0)).core = m.core.answer
        [((0 : UInt8) <<< 2) ||| drive.index ||| 0x28 ||| bitIf (m.core.fdc.cylinders drive == 0) 0x10] :=
      fun _ => rfl
    refine goes_answered h hf hvalid (fun m hm => by rw [Command.order, hobey, hm])
      (by exact Nat.le_refl 1) (by exact Nat.le_refl 1) fun _ _ _ _ => ?_
    exact ⟨⟨rfl, rfl⟩, rfl⟩
  | readId head =>
    have hobey : ∀ m : Simulated, (m.obey (.readId drive head)).core = m.core.answer
        [(head <<< 2) ||| drive.index, 0, 0, m.core.fdc.cylinders drive, head, 1, 2] :=
      fun _ => rfl
    refine goes_answered h hf hvalid (fun m hm => by rw [Command.order, hobey, hm])
      (by exact Nat.le_refl 7) (by exact Nat.le_refl 7) fun result c' k' hresult => ?_
    have hgood : indicatesFailure .immediate ((head <<< 2) ||| drive.index) 0 0 = false := by
      unfold indicatesFailure
      rw [ofSt0_unit drive (head_le_of_readId hvalid)]
    refine Attempt.ensures_bind.mpr (Attempt.ensures_operation.mpr ?_)
    unfold Operation.absorbStatus
    rw [Operation.ensures_modify]
    refine (goes_checkStatus hresult hgood).mono ?_ fun _ _ _ => id
    rintro _ _ _ ⟨rfl, rfl⟩
    exact ⟨⟨rfl, rfl⟩, rfl⟩
  | version =>
    refine goes_answered h hf hvalid (fun m hm => congrArg (Core.answer · [0x90]) hm) (by decide)
      (by decide) fun _ _ _ _ => ?_
    exact ⟨⟨rfl, rfl⟩, rfl⟩
  | specify timing path =>
    have hobey : ∀ m : Simulated, m.core = k.took ((Command.specify timing path).bytes drive flags) →
        (m.obey ((Command.specify timing path).order drive)).core =
          ((k.took ((Command.specify timing path).bytes drive flags)).onPath path).answer [] := by
      intro m hm
      rw [Command.order, Core.core_specify, hm]
    have hopen : Core.Open c.base ((k.took ((Command.specify timing path).bytes drive flags)).onPath path) :=
      ⟨⟨h.present, h.base_eq, h.room⟩, h.inReset, rfl⟩
    apply goes_runImmediate h hf hvalid hobey hopen rfl (Nat.le_refl 0) (by exact Nat.le_refl 0)
    intro result c' _ hc'
    refine ⟨hc'.setting, ⟨⟨hc'.base ▸ ⟨h.present, h.base_eq, h.room⟩, hc'.shadow ▸ h.output_eq,
      hc'.shadow ▸ h.outOfReset⟩, rfl, rfl, h.quiet, ?_⟩, rfl, rfl, rfl, rfl⟩
    intro told htold
    obtain rfl : path = told := Option.some.inj htold
    rfl
  | recalibrate | seek | seekRelative | read | write => exact absurd hkind (by simp [Command.kind])

namespace Command

/-- The cylinder that a head is sent to from where it is: the first one, the one that is asked for, or the one
so many cylinders away, as far as there is one. -/
def destination (position : UInt8) : Command → Option UInt8
  | recalibrate => some 0
  | seek cylinder => some cylinder
  | seekRelative offset => some (UInt8.ofNat (min 255 (position.toNat + offset.toInt).toNat))
  | _ => none

/-- Where the heads are after a command for one of the drives. -/
def headsAfter (drive : Drive) (heads : Drive → UInt8) (command : Command) : Drive → UInt8 :=
  match command.destination (heads drive) with
  | some cylinder => fun other => if other = drive then cylinder else heads other
  | none => heads

variable {heads : Drive → UInt8} {cylinder : UInt8}

theorem headsAfter_of_some (h : command.destination (heads drive) = some cylinder) :
    command.headsAfter drive heads = fun other => if other = drive then cylinder else heads other := by
  rw [headsAfter, h]

theorem headsAfter_of_none (h : command.destination (heads drive) = none) :
    command.headsAfter drive heads = heads := by
  rw [headsAfter, h]

theorem destination_eq_none (hkind : command.kind ≠ .seek) (position : UInt8) :
    command.destination position = none := by
  cases command with
  | recalibrate | seek | seekRelative => exact absurd rfl hkind
  | _ => rfl

end Command

theorem natAbs_le_of_seekRelative {offset : Int16} (h : (Command.seekRelative offset).validate = .ok ()) :
    offset.toInt.natAbs ≤ 255 := by
  change (if offset.toInt.natAbs > 255 then Except.error Rejection.relativeSeekTooFar else .ok ()) = _ at h
  split_ifs at h with hfar
  exact Nat.le_of_not_lt hfar

/-- The steps of a relative seek end where it is to go. -/
theorem stepFrom_eq {offset : Int16} (hvalid : (Command.seekRelative offset).validate = .ok ())
    (position : UInt8) : stepFrom position (offset < 0) (UInt8.ofNat offset.toInt.natAbs) =
      UInt8.ofNat (min 255 (position.toNat + offset.toInt).toNat) := by
  have hnear := natAbs_le_of_seekRelative hvalid
  have hsteps : (UInt8.ofNat offset.toInt.natAbs).toNat = offset.toInt.natAbs :=
    UInt8.toNat_ofNat_of_lt' (Nat.lt_succ_of_le hnear)
  have houtward : (offset < 0) ↔ offset.toInt < 0 := Int16.lt_iff_toInt_lt
  have hposition := position.toNat_lt
  unfold stepFrom
  rw [hsteps]
  congr 1
  by_cases hsign : offset.toInt < 0
  · rw [if_pos (by simpa [houtward] using hsign)]
    omega
  · rw [if_neg (by simpa [houtward] using hsign)]
    omega

/-- The heads are elsewhere. -/
def Core.withHeads (k : Core) (heads : Drive → UInt8) : Core :=
  { k with fdc := { k.fdc with cylinders := heads } }

theorem Kept.withHeads {k k₁ : Core} (h : Kept k k₁) (heads : Drive → UInt8) :
    Kept (k.withHeads heads) (k₁.withHeads heads) := ⟨rfl, h.disk, h.faults, h.bounce⟩

theorem Settled.withHeads (h : Settled c k) (heads : Drive → UInt8) : Settled c (k.withHeads heads) :=
  ⟨⟨⟨h.present, h.base_eq, h.room⟩, h.output_eq, h.outOfReset⟩, h.whole, h.command, h.quiet, h.told⟩

/-- The head of a drive has come to a cylinder, and a sense is owed for that. -/
def Core.arrived (k : Core) (drive : Drive) (cylinder : UInt8) : Core :=
  { k with fdc :=
    { k.fdc.moveHead drive cylinder with
      pending := k.fdc.pending ++ [(drive.index ||| 0x20, cylinder)] } }

theorem Core.Open.arrived {base : UInt16} (h : Core.Open base k) (bytes : List UInt8) (drive : Drive)
    (cylinder : UInt8) : Core.Open base ((k.took bytes).arrived drive cylinder) :=
  ⟨⟨h.present, h.base_eq, h.room⟩, h.outOfReset, rfl⟩

theorem core_arrive (drive : Drive) (cylinder : UInt8) :
    (m.arrive drive 0 cylinder).core = (m.core.arrived drive cylinder).answer [] := by
  have hst0 : ((0 : UInt8) <<< 2) ||| drive.index ||| 0x20 = drive.index ||| 0x20 := by
    cases drive <;> rfl
  dsimp only [arrive]
  rw [Core.core_signal, hst0]
  rfl

theorem exists_arrive (hkind : command.kind = .seek) (hvalid : command.validate = .ok ()) (drive : Drive)
    (heads : Drive → UInt8) : ∃ cylinder, command.destination (heads drive) = some cylinder ∧
      ∀ m : Simulated, m.fdc.cylinders = heads → m.obey (command.order drive) = m.arrive drive 0 cylinder := by
  cases command with
  | recalibrate => exact ⟨0, rfl, fun _ _ => rfl⟩
  | seek cylinder => exact ⟨cylinder, rfl, fun _ _ => rfl⟩
  | seekRelative offset =>
    refine ⟨stepFrom (heads drive) (offset < 0) (UInt8.ofNat offset.toInt.natAbs), ?_, ?_⟩
    · rw [stepFrom_eq hvalid]
      rfl
    · rintro m rfl
      rfl
  | senseInterrupt | senseDrive | readId | read | write | specify | version =>
    exact absurd hkind (by simp [Command.kind])

/-- The sense tells of the first interrupt that is pending, and fails if that one tells of a failure. -/
theorem ensures_senseHead {st0 cylinder : UInt8} {rest : List (UInt8 × UInt8)}
    (hidle : Core.Idle c.base k) (hf : k.faults.Harmless)
    (hpending : k.fdc.pending = (st0, cylinder) :: rest) :
    Attempt.Ensures surroundings Operation.senseHead
      (fun result c' k' => indicatesFailure .seek st0 0 0 = false ∧ result.toList = [st0, cylinder] ∧
        Abides c c' ∧ c'.cylinder = cylinder ∧
        k' = (k.took [Opcode.senseInterrupt]).sensed.answer [])
      (fun cause _ _ => indicatesFailure .seek st0 0 0 = true ∧ cause = .abnormalTermination st0 0 0)
      c k := by
  have hobey : ∀ m : Simulated, m.core = k.took [Opcode.senseInterrupt] →
      (m.obey (.ofBytes [Opcode.senseInterrupt])).core =
        (k.took [Opcode.senseInterrupt]).sensed.answer [st0, cylinder] := by
    intro m hm
    have hanswer : (k.took [Opcode.senseInterrupt]).senseAnswer = [st0, cylinder] := by
      simp only [Core.senseAnswer, Core.took, hpending]
    rw [← hanswer, ← hm]
    exact Core.core_senseInterrupt
  have htransact := ensures_transact_harmless (n := .exactly 2) hidle hf
    (List.cons_ne_nil Opcode.senseInterrupt []) rfl hobey
    ((hidle.took _).same (Core.same_sensed _) rfl) rfl (Nat.le_refl 2) (Nat.le_refl 2)
  simp only [Operation.senseHead, Attempt.ensures_bind, Attempt.ensures_getThe,
    Attempt.ensures_of]
  apply htransact.mono
  rintro _ _ ⟨result, rfl, hresult, rfl⟩
  have hst0 : result.byte 0 = st0 := byte_of_toList hresult 0
  have hcylinder : result.byte 1 = cylinder := byte_of_toList hresult 1
  simp only [Attempt.ensures_modify, hst0]
  cases hbad : indicatesFailure .seek st0 0 0 with
  | true => exact ⟨rfl, rfl⟩
  | false => exact ⟨rfl, hresult, ⟨rfl, rfl⟩, hcylinder, rfl⟩

theorem goes_senseHead {drive : Drive} {cylinder : UInt8} (hidle : Core.Idle c.base k)
    (hf : k.faults.Harmless) (hpending : k.fdc.pending = [(drive.index ||| 0x20, cylinder)]) :
    Goes Operation.senseHead (fun result c' k' => result.toList = [drive.index ||| 0x20, cylinder] ∧
      Abides c c' ∧ c'.cylinder = cylinder ∧
      k' = (k.took [Opcode.senseInterrupt]).sensed.answer []) c k := by
  refine (ensures_senseHead hidle hf hpending).mono (fun _ _ _ hsensed => hsensed.2) ?_
  rintro _ _ _ ⟨hbad, -⟩
  have hgood : indicatesFailure .seek (drive.index ||| 0x20) 0 0 = false := by
    cases drive <;> decide
  exact absurd (hgood.symm.trans hbad) nofun

theorem resultLength_of_seek (hkind : command.kind = .seek) :
    command.resultLength = .exactly 0 := by
  cases command with
  | recalibrate | seek | seekRelative => rfl
  | senseInterrupt | senseDrive | readId | read | write | specify | version =>
    exact absurd hkind (by simp [Command.kind])

/-- What a command that moves the head does at its end. -/
abbrev Operation.tellHead (endedBy : EndSign) : Attempt Report := do
  let result ← senseHead
  return {
    result := result.toList
    status := (← getThe Controller).status
    transferred := 0
    endedBy }

/-- The head arrives, and what is left is the sense that is owed for it. -/
theorem ensures_runSeek {Q : Report → Controller → Core → Prop} {F : Failure → Controller → Core → Prop}
    (h : Core.Idle c.base k) (hf : k.faults.Harmless) (hkind : command.kind = .seek)
    (hvalid : command.validate = .ok ())
    (htell : ∀ c₁ cylinder endedBy, Abides c c₁ → command.destination (k.fdc.cylinders drive) = some cylinder →
      Attempt.Ensures surroundings (Operation.tellHead endedBy) Q F c₁
        (((k.took (command.bytes drive flags)).arrived drive cylinder).answer [])) :
    Attempt.Ensures surroundings (Operation.runSeek command (command.bytes drive flags) drive) Q F c k := by
  obtain ⟨cylinder, hthere, harrive⟩ := exists_arrive hkind hvalid drive k.fdc.cylinders
  have hlength := Command.length_bytes command drive flags
  have hlimit : k.faults.commandLimit ≠ some 0 := by simp [hf.commandLimit]
  unfold Operation.runSeek
  rw [Attempt.ensures_bind, Attempt.ensures_getThe]
  have hsend := goes_sendBytes h hf (ne_nil_of_order hlength) hlength (c.path == .channel)
  refine Attempt.ensures_bind.mpr (hsend.mono ?_ fun _ _ _ => False.elim)
  rintro _ c₁ _ ⟨hc₁, m, hm, rfl⟩
  have hcylinders : m.fdc.cylinders = k.fdc.cylinders := congrArg (fun k => k.fdc.cylinders) hm
  rw [Command.ofBytes_bytes hvalid, harrive m hcylinders, core_arrive, hm]
  have hopen : Core.Open c₁.base ((k.took (command.bytes drive flags)).arrived drive cylinder) :=
    hc₁.base ▸ h.toOpen.arrived _ drive cylinder
  have hrest : Operation.headAtRest drive
      (((k.took (command.bytes drive flags)).arrived drive cylinder).answer []).status = true := by
    rw [hopen.idle.status hlimit]
    cases drive <;> decide
  have hend := goes_awaitEnd hopen.idle.toAt hrest Operation.seekTimeout
  refine Attempt.ensures_bind.mpr (hend.mono ?_ fun _ _ _ => False.elim)
  rintro endedBy c₂ _ ⟨hc₂, rfl⟩
  rw [← hc₂.base] at hopen
  rw [resultLength_of_seek hkind]
  have hresult : Goes (Operation.takeResult (.exactly 0)) _ c₂
      (((k.took (command.bytes drive flags)).arrived drive cylinder).answer []) :=
    goes_takeResult hopen hf (Nat.le_refl 0) (Nat.le_refl 0)
  refine Attempt.ensures_bind.mpr (hresult.mono ?_ fun _ _ _ => False.elim)
  rintro _ c₃ _ ⟨-, hc₃, rfl⟩
  exact htell c₃ cylinder endedBy (hc₁.trans (hc₂.trans hc₃)) hthere

/-- A report of where the head has come to. -/
def Report.TellsHead (report : Report) (drive : Drive) (cylinder : UInt8) (c : Controller) : Prop :=
  report.result = [drive.index ||| 0x20, cylinder] ∧ c.cylinder = cylinder

theorem goes_runSeek (h : Settled c k) (hf : k.faults.Harmless) (hkind : command.kind = .seek)
    (hvalid : command.validate = .ok ()) :
    Goes (Operation.runSeek command (command.bytes drive flags) drive)
      (fun report c' k' => Served c (k.withHeads (command.headsAfter drive k.fdc.cylinders)) c' k' ∧
        ∀ cylinder, command.destination (k.fdc.cylinders drive) = some cylinder →
          report.TellsHead drive cylinder c')
      c k := by
  refine ensures_runSeek h.idle hf hkind hvalid fun c₁ cylinder endedBy hc₁ hthere => ?_
  have hopen : Core.Open c₁.base ((k.took (command.bytes drive flags)).arrived drive cylinder) :=
    hc₁.base ▸ h.idle.toOpen.arrived _ drive cylinder
  have hsame : Core.Same (k.withHeads (command.headsAfter drive k.fdc.cylinders))
      ((k.took (command.bytes drive flags)).arrived drive cylinder) := by
    rw [Command.headsAfter_of_some hthere]
    exact ⟨rfl, rfl, rfl, rfl, rfl, rfl, rfl, rfl⟩
  have hpending : ((k.took (command.bytes drive flags)).arrived drive cylinder).fdc.pending =
      [(drive.index ||| 0x20, cylinder)] := congrArg (· ++ _) h.quiet
  have hsense : Goes Operation.senseHead _ c₁ (Core.answer _ []) := goes_senseHead hopen.idle hf hpending
  refine Attempt.ensures_bind.mpr (hsense.mono ?_ fun _ _ _ => id)
  rintro result c₂ _ ⟨hresult, hc₂, hcylinder, rfl⟩
  have hc : Abides c c₂ := hc₁.trans hc₂
  have hend := hsame.trans <| (Core.same_answer _ []).trans <|
    (Core.same_took _ [Opcode.senseInterrupt]).trans <| (Core.same_sensed _).trans (Core.same_answer _ [])
  have hsettled := (h.withHeads _).same hc hend rfl rfl (congrArg List.tail hpending)
  refine ⟨⟨hc.setting, hsettled, hend.kept⟩, ?_⟩
  intro there hdestination
  obtain rfl : cylinder = there := Option.some.inj (hthere.symm.trans hdestination)
  exact ⟨hresult, hcylinder⟩

end Diskette
