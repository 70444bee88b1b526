import Diskette.Proofs.InterruptFlag
import Diskette.Proofs.Ownership
import Diskette.Proofs.Prompt.Commands
import Diskette.Proofs.SectorStore

/-!
What lasts between the uses of a driver on a simulated machine: while the DMA path is taken, and no storm has come over
the line, the next interrupt of the controller will be heard. Requests that are refused, and interrupts that nobody has
asked for, leave that as it is.
-/
namespace Diskette

open Simulated InterruptUnit
open Diskette.Core (surroundings)

variable {c c' : Controller} {k : Core} {m : Simulated} {u : InterruptUnit} {command : Command}
  {payload : Option Transfer} {code : UInt8} {store : Store} {request : Request} {s : Station}

/-- Whatever it asks for, its sectors are of one size. -/
def Request.Sized (code : UInt8) : Request → Prop
  | .executeWith command _ => ∀ span direction, command.transfer? = some (span, direction) → span.sizeCode = code
  | _ => True

/-- A command that is not accepted changes nothing. -/
theorem ensures_perform_refused
    (hrefused : ∀ bytes, Operation.Prepared c.drive c.recording command payload bytes →
      ∃ t ∈ payload, k.bounce.size < t.length) :
    Operation.Ensures surroundings (Operation.perform command payload) (fun _ c' k' => c' = c ∧ k' = k) c k := by
  have hsize : surroundings.permits k (.memory .bounceSize) ∧
      ∀ n k', surroundings.follows k (.memory .bounceSize) n k' → k' = k ∧ n = k.bounce.size := by
    refine ⟨trivial, ?_⟩
    rintro n k' ⟨m, rfl, rfl, rfl⟩
    exact ⟨rfl, rfl⟩
  unfold Operation.perform
  refine Operation.ensures_bind.mpr
    ((Operation.ensures_prepare_within (K := fun k' => k' = k) (L := fun n _ => n = k.bounce.size) hsize rfl).mono ?_)
  rintro (cause | bytes) c' k' ⟨rfl, rfl, hprepared⟩
  · exact ⟨rfl, rfl⟩
  · obtain ⟨haccepted, hroom⟩ := hprepared bytes rfl
    obtain ⟨t, ht, htoo⟩ := hrefused bytes haccepted
    obtain ⟨n, hle, rfl⟩ := hroom t ht
    exact absurd hle (Nat.not_le.mpr htoo)

/-- A request is carried out or refused, and the disks hold sectors of the one size in either case. -/
theorem ensures_request_sized (h : Stocked code store c k) (hsized : request.Sized code) :
    Operation.Ensures surroundings request.perform (fun _ c' k' => ∃ store, Stocked code store c' k') c k := by
  by_cases hvalid : request.Valid code
  · exact (ensures_request_stocked h hvalid).mono fun _ _ _ hend => ⟨_, hend.1⟩
  · cases request with
    | execute command =>
      have hrefused : Operation.Ensures surroundings (Operation.perform command none)
          (fun _ c' k' => c' = c ∧ k' = k) c k :=
        ensures_perform_refused fun bytes hprepared => absurd hprepared.valid hvalid
      refine Operation.ensures_bind.mpr (Operation.ensures_bind.mpr (hrefused.mono ?_))
      rintro _ _ _ ⟨rfl, rfl⟩
      exact ⟨store, h⟩
    | executeWith command t =>
      have hrefused : ∀ bytes, Operation.Prepared c.drive c.recording command (some t) bytes →
          ∃ t' ∈ some t, k.bounce.size < t'.length := by
        intro bytes hprepared
        refine ⟨t, rfl, Nat.lt_of_not_le fun hroom => hvalid ⟨?_, hsized⟩⟩
        exact Transfer.validate_eq_ok_iff.mpr ⟨hprepared.payload, h.bounce ▸ hroom⟩
      refine Operation.ensures_bind.mpr (Operation.ensures_bind.mpr ((ensures_perform_refused hrefused).mono ?_))
      rintro _ _ _ ⟨rfl, rfl⟩
      exact ⟨store, h⟩
    | _ => exact absurd trivial hvalid

/-- A use that does not silence the controller, with sectors of one size. -/
def Use.Audible (code : UInt8) : Use → Prop
  | .ask request => request.Sized code
  | .fire _ _ => True
  | .switch silent _ => silent = false

/-- A driver that is ready for the next command, on a machine where its line has not been lost sight of. -/
structure Station.Attuned (code : UInt8) (s : Station) : Prop where
  stocked : ∃ store, Stocked code store s.controller s.machine.core
  owner : ∃ used, Owner used s.controller.line s.controller s.machine
  enabled : s.machine.interrupts.enabled = true
  alert : s.machine.interrupts.Alert
  silent : s.machine.faults.silent = false
  line : ∀ l ∈ s.controller.line, l.irq = s.machine.fdc.irq ∧ l.irq ∈ lines ∧
    l.id < s.machine.interrupts.memory.counters.size

theorem spurious_fire (irq : UInt8) (count : Nat) : Spurious m (m.unit (·.fire irq count)) := by
  have hfire : ∀ u : InterruptUnit, u.fire irq count =
      (List.replicate count irq).foldl (fun u irq => (u.raise irq).deliver) u := by
    induction count with
    | zero => exact fun _ => rfl
    | succ count ih => exact fun u => ih (u.raise irq).deliver
  exact ⟨List.replicate count irq, congrArg (m.unit ·) (funext hfire)⟩

theorem InterruptUnit.Alert.fire (h : u.Alert) (irq : UInt8) (count : Nat) : (u.fire irq count).Alert := by
  induction count generalizing u with
  | zero => exact h
  | succ count ih => exact ih (alert_deliver _)

namespace Station.Attuned

theorem ask (h : s.Attuned code) (hsized : request.Sized code) : (s.use (.ask request)).Attuned code := by
  obtain ⟨store, hstocked⟩ := h.stocked
  obtain ⟨used, howner⟩ := h.owner
  have howner' : Operation.Ensures guarded request.perform
      (fun _ c' m' => Owner (used ∨ s.controller.hooked) s.controller.line c' m') s.controller s.machine := by
    rw [request.perform_eq]
    exact Operation.ensures_bind.mpr (ensures_respond_owner request howner)
  -- Each condition holds of the same run, in the surroundings that it was proved for.
  have howns := Program.Ensures.run keepsTo_guarded howner'
  have hlasts := (ensures_outlasts (request.perform.run s.controller) s.machine).run keepsTo_alone
  obtain ⟨moments, hpassage⟩ := keepsTo_restless.passage (request.perform.run s.controller) s.machine
  have hmatched := matched_of_tidy (Wire.tidy_request request) hpassage.execution
  refine ⟨Station.perform_of_ensures (ensures_request_sized hstocked hsized), ?_, ?_, hlasts.alert h.alert,
    hlasts.silent.trans h.silent, ?_⟩
  · exact ⟨_, howns.line_eq.symm ▸ howns⟩
  · exact (enabled_of_matched hpassage hmatched).trans h.enabled
  · intro l hl
    obtain ⟨hirq, hwired, henrolled⟩ := h.line l (howns.line_eq ▸ hl)
    exact ⟨hirq.trans hlasts.irq.symm, hwired, Nat.lt_of_lt_of_le henrolled hlasts.counters⟩

theorem fire (h : s.Attuned code) (irq : UInt8) (count : Nat) : (s.use (.fire irq count)).Attuned code := by
  have hspurious : Spurious s.machine (s.machine.unit (·.fire irq count)) := spurious_fire irq count
  have hkept := (Stirs.fire (u := s.machine.interrupts) irq count).steadfast
  refine ⟨?_, ?_, hkept.enabled.trans h.enabled, h.alert.fire irq count, h.silent, fun l hl => ?_⟩
  · obtain ⟨store, hstocked⟩ := h.stocked
    exact ⟨store, (Core.core_fire irq count).symm ▸ hstocked⟩
  · obtain ⟨used, howner⟩ := h.owner
    exact ⟨used, howner.spurious hspurious⟩
  · obtain ⟨hirq, hwired, henrolled⟩ := h.line l hl
    exact ⟨hirq, hwired, hkept.lines.symm ▸ henrolled⟩

theorem use (h : s.Attuned code) {use : Use} (huse : use.Audible code) : (s.use use).Attuned code := by
  cases use with
  | ask request => exact h.ask huse
  | fire irq count => exact h.fire irq count
  | switch silent reloadCount =>
    obtain ⟨store, hstocked⟩ := h.stocked
    obtain ⟨used, howner⟩ := h.owner
    refine ⟨⟨store, hstocked.use (u := .switch silent reloadCount) trivial⟩, ⟨used, ?_⟩, h.enabled, h.alert, huse,
      h.line⟩
    exact ⟨⟨howner.line_eq, howner.lined, howner.cleared, howner.free, howner.served⟩, howner.hooked, howner.routed,
      howner.opened⟩

theorem uses (h : s.Attuned code) {uses : List Use} (huses : ∀ use ∈ uses, use.Audible code) :
    (uses.foldl Station.use s).Attuned code := by
  induction uses generalizing s with
  | nil => exact h
  | cons use uses ih =>
    exact ih (h.use (huses use List.mem_cons_self)) fun other hother => huses other (List.mem_cons_of_mem use hother)

end Station.Attuned

/-- A machine with a controller that can be found, that no fault hinders, and whose interrupts nobody stands in the
way of. The sectors on its disks are of one size. -/
structure Simulated.Hospitable (code : UInt8) (m : Simulated) : Prop where
  present : m.fdc.present = true
  room : m.fdc.base.toNat ≤ 0xFFF8
  quiet : m.core.leftOver = []
  harmless : m.faults.Harmless
  silent : m.faults.silent = false
  bounce : m.interrupts.memory.bounce.size = 4096
  sectors : ∀ id, (m.fdc.disk.sectorAt id (Store.sectorBytes code)).length = Store.sectorBytes code
  clear : m.Clear
  undisturbed : m.Undisturbed m.fdc.irq

theorem hospitable_fresh (code : UInt8) : ({} : Simulated).Hospitable code := by
  refine ⟨rfl, by decide, ?_, ⟨rfl, rfl, rfl, rfl, rfl⟩, rfl, Array.size_replicate, fun _ => List.length_replicate,
    ⟨rfl, ?_⟩, ?_⟩
  · exact Core.leftOver_eq_nil_iff.mpr (.inr ⟨rfl, rfl⟩)
  · rintro irq - ⟨hdue, -⟩
    simp [isPending] at hdue
  · rintro i l ⟨⟩

/-- Where the controller of a machine is, with the line and the channel that it is wired to. -/
def Simulated.placement (m : Simulated) : Placement := ⟨m.fdc.base, some m.fdc.irq, some fdcChannel⟩

theorem stocked_of_hospitable (h : m.Hospitable code) (hfound : Found m.placement m.core c k) :
    Stocked code ⟨.a, fun id => m.fdc.disk.sectorAt id (Store.sectorBytes code)⟩ c k := by
  refine ⟨⟨hfound.settled h.quiet, hfound.kept.faults ▸ h.harmless, hfound.routed, ?_⟩,
    hfound.kept.bounce.trans h.bounce, hfound.drive, ?_⟩
  · intro accepted haccepted
    exact (Option.some.inj (hfound.channel.symm.trans haccepted)).symm
  · rw [hfound.kept.disk]
    exact ⟨fun _ => rfl, h.sectors⟩

/-- A line that has been opened is one of the machine, with a counter of its own. -/
theorem findable_alone (placement : Placement) : Controller.Findable alone placement (fun _ => True)
    fun line m => ∀ l ∈ line, placement.irq.filter Placement.usableIrq = some l.irq ∧
      l.id < m.interrupts.memory.counters.size where
  finds _ _ := ⟨trivial, fun _ _ _ => trivial⟩
  opens := by
    intro m _
    cases placement.irq.filter Placement.usableIrq with
    | none => exact nofun
    | some irq =>
      refine Program.ensures_bind.mpr (ensures_alone_call.mpr ?_)
      rintro l ⟨⟩
      refine ⟨rfl, ?_⟩
      change m.interrupts.memory.counters.size < (m.interrupts.memory.counters.push {}).size
      rw [Array.size_push]
      exact Nat.lt_succ_self _

/-- The line is kept while the controller is made ready. -/
theorem ensures_discover_line {placement : Placement} (h : ∀ irq ∈ placement.irq, m.Undisturbed irq) :
    (Controller.discover placement).Ensures alone (fun found m' => ∀ c ∈ found, ∀ l ∈ c.line,
      placement.irq.filter Placement.usableIrq = some l.irq ∧ l.id < m'.interrupts.memory.counters.size) m := by
  have hprobe := (findable_alone placement).probe (s := m) (G := fun c m => ∀ l ∈ c.line,
    placement.irq.filter Placement.usableIrq = some l.irq ∧ l.id < m.interrupts.memory.counters.size)
    (fun _ _ _ hline => hline) trivial
  have howner := ensures_alone_of keepsTo_guarded (ensures_find_owner .probe h)
  refine Program.ensures_bind.mpr ((hprobe.and howner).mono ?_)
  rintro (_ | c₀) m₁ ⟨⟨-, hline⟩, howner⟩
  · rintro c ⟨⟩
  · have hready := ensures_alone_of keepsTo_guarded (obliging_owner.bringUp c₀ m₁ (howner c₀ rfl))
    refine Program.ensures_bind.mpr ((hready.and (ensures_outlasts _ m₁)).mono ?_)
    rintro ⟨_, c⟩ m₂ ⟨hready, hlasts⟩ _ ⟨⟩ l hl
    obtain ⟨hirq, henrolled⟩ := hline c₀ rfl l (hready.line_eq ▸ hl)
    exact ⟨hirq, Nat.lt_of_lt_of_le henrolled hlasts.counters⟩

theorem usableIrq_wired {irq : UInt8} (h : Placement.usableIrq irq = true) : irq ∈ lines := by
  simp only [Placement.usableIrq, Bool.and_eq_true, decide_eq_true_eq, UInt8.le_iff_toNat_le] at h
  refine List.mem_map.mpr ⟨irq.toNat, List.mem_range.mpr (Nat.lt_succ_of_le h.2), UInt8.ofNat_toNat⟩

theorem attuned_of_discover (h : m.Hospitable code) : ∃ c m',
    (Controller.discover m.placement).run machine m = (some c, m') ∧ Station.Attuned code ⟨c, m'⟩ := by
  have hundisturbed : ∀ irq ∈ m.placement.irq, m.Undisturbed irq := by
    rintro _ ⟨⟩
    exact h.undisturbed
  obtain ⟨c, m', hrun, hfound⟩ := discover_simulated m m.placement ⟨h.present, rfl, h.room⟩ h.harmless
  have howner := (ensures_find_owner .discover hundisturbed).run keepsTo_guarded
  have hline := (ensures_discover_line hundisturbed).run keepsTo_alone
  have hlasts := (ensures_outlasts (Controller.discover m.placement) m).run keepsTo_alone
  obtain ⟨moments, hpassage⟩ := keepsTo_restless.passage (Opening.discover.find m.placement) m
  have henabled := enabled_of_matched hpassage (matched_find .discover hpassage.execution)
  change ∀ c ∈ ((Controller.discover m.placement).run machine m).1, Owner False c.line c
    ((Controller.discover m.placement).run machine m).2 at howner
  change ((Controller.discover m.placement).run machine m).2.interrupts.enabled = _ at henabled
  rw [hrun] at howner hline hlasts henabled
  refine ⟨c, m', hrun, ⟨_, stocked_of_hospitable h hfound⟩, ⟨False, howner c rfl⟩, henabled.trans h.clear.enabled,
    hlasts.alert fun _ => h.clear.drained, hlasts.silent.trans h.silent, fun l hl => ?_⟩
  obtain ⟨hirq, henrolled⟩ := hline c rfl l hl
  obtain ⟨hproposed, husable⟩ := Option.filter_eq_some_iff.mp hirq
  have hown : m.fdc.irq = l.irq := Option.some.inj hproposed
  exact ⟨hown.symm.trans hlasts.irq.symm, usableIrq_wired husable, henrolled⟩

end Diskette
