import Diskette.Proofs.SectorStore

/-!
The heads of a driver on a simulated machine are where its commands have sent them, and each of these commands
reports that. A step so far and the same step back cancel out, unless the head is held at the first or the last
cylinder.
-/
namespace Diskette

open Simulated
open Diskette.Core (surroundings)

variable {command : Command} {offset : Int16} {drive : Drive} {position cylinder : UInt8} {code : UInt8} {store : Store}
  {s : Station}

theorem Command.transfer?_of_destination (h : command.destination position = some cylinder) :
    command.transfer? = none := by
  cases command with
  | recalibrate | seek | seekRelative => rfl
  | _ => exact absurd h nofun

/-- A step that is not too far is not too far the other way. -/
theorem validate_neg (hvalid : (Command.seekRelative offset).validate = .ok ()) :
    (-offset).toInt = -offset.toInt ∧ (Command.seekRelative (-offset)).validate = .ok () := by
  have hnear := natAbs_le_of_seekRelative hvalid
  have hneg : (-offset).toInt = -offset.toInt := by
    rw [Int16.toInt_neg]
    exact Int.bmod_eq_of_le (by omega) (by omega)
  refine ⟨hneg, ?_⟩
  rw [Command.validate, hneg, if_neg (by omega)]

/-- A step that is not held up can be taken back. -/
theorem destination_neg (hvalid : (Command.seekRelative offset).validate = .ok ())
    (hfirst : 0 ≤ position.toNat + offset.toInt) (hlast : position.toNat + offset.toInt ≤ 255)
    (h : (Command.seekRelative offset).destination position = some cylinder) :
    (Command.seekRelative (-offset)).destination cylinder = some position := by
  obtain ⟨hneg, -⟩ := validate_neg hvalid
  have hthere : cylinder.toNat = (position.toNat + offset.toInt).toNat := by
    obtain rfl := Option.some.inj h
    rw [UInt8.toNat_ofNat_of_lt' (Nat.lt_succ_of_le (Nat.min_le_left 255 _))]
    omega
  have hback : min 255 (cylinder.toNat + (-offset).toInt).toNat = position.toNat := by
    have hposition := position.toNat_lt
    rw [hneg]
    omega
  rw [Command.destination, hback, UInt8.ofNat_toNat]

theorem Station.use_execute (s : Station) (command : Command) :
    s.use (.ask (.execute command)) = (s.perform (Operation.execute command)).2 := by
  rw [Station.use, Request.perform, Station.perform_bind]
  rfl

/-- Where a caller expects the heads to be, and the drive that is selected. -/
structure Heads where
  drive : Drive
  cylinders : Drive → UInt8

namespace Heads

variable {heads : Heads}

def home : Heads := ⟨.a, fun _ => 0⟩

def after (heads : Heads) : Use → Heads
  | .ask request => ⟨request.driveAfter heads.drive, request.headsAfter heads.drive heads.cylinders⟩
  | _ => heads

/-- The heads are where they are expected, and none of them owes a sense. -/
structure Stand (heads : Heads) (s : Station) : Prop where
  drive : s.controller.drive = heads.drive
  cylinders : s.machine.fdc.cylinders = heads.cylinders
  quiet : s.machine.fdc.pending = []

theorem drive_afterRequest (store : Store) (request : Request) :
    (store.afterRequest request).drive = request.driveAfter store.drive := by
  cases request with
  | executeWith command t =>
    simp only [Store.afterRequest]
    split <;> rfl
  | _ => rfl

theorem Stand.use (h : heads.Stand s) (hstocked : Stocked code store s.controller s.machine.core) {u : Use}
    (hvalid : u.Valid code) : (heads.after u).Stand (s.use u) := by
  cases u with
  | ask request =>
    obtain ⟨hstocked', hcylinders⟩ := Station.perform_of_ensures (ensures_request_stocked hstocked hvalid)
    refine ⟨?_, ?_, hstocked'.quiet⟩
    · rw [Heads.after, ← h.drive, hstocked.drive, ← drive_afterRequest]
      exact hstocked'.drive
    · rw [Heads.after, ← h.drive, ← h.cylinders]
      exact hcylinders
  | fire irq count => exact ⟨h.drive, h.cylinders, h.quiet⟩
  | switch silent reloadCount => exact ⟨h.drive, h.cylinders, h.quiet⟩

theorem Stand.uses (h : heads.Stand s) (hstocked : Stocked code store s.controller s.machine.core)
    {uses : List Use} (hvalid : ∀ u ∈ uses, u.Valid code) :
    (uses.foldl Heads.after heads).Stand (uses.foldl Station.use s) := by
  induction uses generalizing heads s store with
  | nil => exact h
  | cons u uses ih =>
    have hu : u.Valid code := hvalid u List.mem_cons_self
    exact ih (h.use hstocked hu) (hstocked.use hu) fun v hv => hvalid v (List.mem_cons_of_mem u hv)

/-- Nothing but a command that moves a head changes where the heads are. -/
theorem cylinders_after (heads : Heads) {u : Use} (hu : ∀ command, u = .ask (.execute command) → command.kind ≠ .seek) :
    (heads.after u).cylinders = heads.cylinders := by
  cases u with
  | ask request =>
    cases request with
    | execute command => exact Command.headsAfter_of_none (Command.destination_eq_none (hu command rfl) _)
    | _ => rfl
  | _ => rfl

theorem Stand.moves (h : heads.Stand s) (hstocked : Stocked code store s.controller s.machine.core)
    (hvalid : command.validate = .ok ())
    (hcylinder : command.destination (heads.cylinders heads.drive) = some cylinder) :
    ∃ report s', s.perform (Operation.execute command) = (.ok report, s') ∧
      report.result = [0x20 + heads.drive.index, cylinder] ∧ s'.controller.cylinder = cylinder ∧
      s'.machine.fdc.cylinders = (fun drive => if drive = heads.drive then cylinder else heads.cylinders drive) ∧
      s'.machine.fdc.pending = [] := by
  have hdata := Command.transfer?_of_destination hcylinder
  obtain ⟨report, hreport, hexecuted⟩ := Station.perform_of_ensures
    (ensures_execute_simulated hstocked.toSettled.sound hstocked.harmless hvalid hdata)
  have hcylinders := hexecuted.kept.cylinders
  have htold := hexecuted.told cylinder
  have hunit : heads.drive.index ||| 0x20 = 0x20 + heads.drive.index := by cases heads.drive <;> rfl
  have hbefore : s.machine.core.fdc.cylinders = heads.cylinders := h.cylinders
  rw [h.drive, hbefore] at hcylinders htold
  obtain ⟨hresult, htold⟩ := htold hcylinder
  refine ⟨report, _, Prod.ext hreport rfl, hresult.trans (by rw [hunit]), htold, ?_, hexecuted.settled.quiet⟩
  exact hcylinders.trans (Command.headsAfter_of_some hcylinder)

/-- A step that is not held up, and the same step back. -/
theorem Stand.returns (h : heads.Stand s) (hstocked : Stocked code store s.controller s.machine.core)
    (hvalid : (Command.seekRelative offset).validate = .ok ())
    (hfirst : 0 ≤ (heads.cylinders heads.drive).toNat + offset.toInt)
    (hlast : (heads.cylinders heads.drive).toNat + offset.toInt ≤ 255) :
    let s' := [Use.ask (.execute (.seekRelative offset)), .ask (.execute (.seekRelative (-offset)))].foldl
      Station.use s
    s'.machine.fdc.cylinders = heads.cylinders ∧ s'.controller.cylinder = heads.cylinders heads.drive := by
  obtain ⟨-, hvalid'⟩ := validate_neg hvalid
  obtain ⟨cylinder, hcylinder⟩ :
      ∃ cylinder, (Command.seekRelative offset).destination (heads.cylinders heads.drive) = some cylinder := ⟨_, rfl⟩
  have hthere : ∀ drive, (heads.after (.ask (.execute (.seekRelative offset)))).cylinders drive =
      if drive = heads.drive then cylinder else heads.cylinders drive :=
    congrFun (Command.headsAfter_of_some hcylinder)
  have hask : Use.Valid code (.ask (.execute (.seekRelative offset))) := hvalid
  have hstand₁ := h.use hstocked hask
  have hback : (Command.seekRelative (-offset)).destination
      ((heads.after (.ask (.execute (.seekRelative offset)))).cylinders heads.drive) =
        some (heads.cylinders heads.drive) := by
    rw [hthere, if_pos rfl]
    exact destination_neg hvalid hfirst hlast hcylinder
  obtain ⟨report, s', hperform, -, htold, hcylinders, -⟩ := hstand₁.moves (hstocked.use hask) hvalid' hback
  rw [List.foldl_cons, List.foldl_cons, List.foldl_nil, Station.use_execute _ (.seekRelative (-offset)), hperform]
  refine ⟨hcylinders.trans (funext fun drive => ?_), htold⟩
  by_cases hdrive : drive = heads.drive
  · rw [hdrive]
    exact if_pos rfl
  · exact (if_neg hdrive).trans ((hthere drive).trans (if_neg hdrive))

end Heads

/-- On a driver that has been discovered on a fresh machine, after whatever uses, the heads are where the commands have
sent them, and none owes a sense. A command that moves a head reports the drive and the cylinder that its head has come
to, and moves no other; a step that is not held up can be taken back. -/
theorem heads_follow (irq channel : Option UInt8)
    (hchannel : channel = some fdcChannel ∨ channel.filter Placement.usableChannel = none) :
    ∃ c m, (Controller.discover ⟨0x3F0, irq, channel⟩).run Simulated.machine {} = (some c, m) ∧
      ∀ code (uses : List Use), (∀ u ∈ uses, u.Valid code) →
        let s := uses.foldl Station.use ⟨c, m⟩
        let heads := uses.foldl Heads.after .home
        heads.Stand s ∧
        (∀ u, u.Valid code → (∀ command, u = .ask (.execute command) → command.kind ≠ .seek) →
          (s.use u).machine.fdc.cylinders = heads.cylinders ∧ (s.use u).machine.fdc.pending = []) ∧
        (∀ command cylinder, command.validate = .ok () →
          command.destination (heads.cylinders heads.drive) = some cylinder →
          ∃ report s', s.perform (Operation.execute command) = (.ok report, s') ∧
            report.result = [0x20 + heads.drive.index, cylinder] ∧ s'.controller.cylinder = cylinder ∧
            s'.machine.fdc.cylinders =
              (fun drive => if drive = heads.drive then cylinder else heads.cylinders drive) ∧
            s'.machine.fdc.pending = []) ∧
        ∀ offset, (Command.seekRelative offset).validate = .ok () →
          let position := heads.cylinders heads.drive
          0 ≤ position.toNat + offset.toInt → position.toNat + offset.toInt ≤ 255 →
          let s' := [Use.ask (.execute (.seekRelative offset)), .ask (.execute (.seekRelative (-offset)))].foldl
            Station.use s
          s'.machine.fdc.cylinders = heads.cylinders ∧ s'.controller.cylinder = position := by
  obtain ⟨c, m, hrun, hfound⟩ := discover_fresh irq channel
  refine ⟨c, m, hrun, fun code uses huses => ?_⟩
  have hstart : Stocked code (.blank code) c m.core := stocked_of_found code hchannel hfound
  have hstand : Heads.home.Stand ⟨c, m⟩ := ⟨hfound.drive, hfound.kept.cylinders, hstart.quiet⟩
  have hstocked := Stocked.uses (s := ⟨c, m⟩) hstart huses
  replace hstand := hstand.uses hstart huses
  refine ⟨hstand, fun u hu hstill => ?_, fun command cylinder hvalid => hstand.moves hstocked hvalid,
    fun offset hvalid => hstand.returns hstocked hvalid⟩
  have hafter := hstand.use hstocked hu
  exact ⟨hafter.cylinders.trans (Heads.cylinders_after _ hstill), hafter.quiet⟩

/-- A step that is held at the last cylinder, after a seek on the DMA path, with the line silent by now. -/
theorem heads_follow_clamped :
    let uses := [Use.ask (.execute (.seek 250)), .fire 6 3, .ask .disableDma, .switch true true]
    (∀ u ∈ uses, u.Valid 2) ∧ ∃ c m report s',
      (Controller.discover ⟨0x3F0, some 6, some 2⟩).run Simulated.machine {} = (some c, m) ∧
        (uses.foldl Station.use ⟨c, m⟩).perform (Operation.execute (.seekRelative 10)) = (.ok report, s') ∧
        report.result = [0x20, 255] ∧ s'.controller.cylinder = 255 ∧
        s'.machine.fdc.cylinders .a = 255 ∧ s'.machine.fdc.cylinders .b = 0 := by
  intro uses
  have huses : ∀ u ∈ uses, u.Valid 2 := by
    intro u hu
    simp only [uses, List.mem_cons, List.not_mem_nil, or_false] at hu
    rcases hu with rfl | rfl | rfl | rfl
    · exact Eq.refl (Except.ok ())
    all_goals trivial
  obtain ⟨c, m, hrun, hfollow⟩ := heads_follow (some 6) (some 2) (.inl rfl)
  obtain ⟨-, -, hmoves, -⟩ := hfollow 2 uses huses
  obtain ⟨report, s', hperform, hresult, htold, hcylinders, -⟩ :=
    hmoves (.seekRelative 10) 255 rfl (by decide)
  refine ⟨huses, c, m, report, s', hrun, hperform, hresult, htold, ?_, ?_⟩
  · rw [hcylinders]
    rfl
  · rw [hcylinders]
    rfl

end Diskette
