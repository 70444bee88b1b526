import Diskette.Proofs.Careful.Commands
import Diskette.Proofs.Careful.Fires
import Diskette.Proofs.Footprint

/-!
Nothing is ever out of range. Whatever is asked of a controller, and whatever the platform answers, an operation that
takes care does what the operation does that takes none, and breaks off nowhere: no byte is taken where there is none, no
room is overrun, and nothing is taken away from less. The handler counts its fires without an overflow for as long as
they are acknowledged in time, and no register lies beyond the last port.
-/
namespace Diskette

variable {σ : Type} {follows : σ → (c : Platform.Call) → Platform.Reply c → σ → Prop} {stirs : σ → σ → Prop}
  {placement : Placement} {base : UInt16} {moments : List (Moment Platform σ)}

open Careful

namespace CarefulOperation

def find (placement : Placement) : Opening → Careful (Option Controller)
  | .probe => probe placement
  | .discover => discover placement

def respond : Request → CarefulOperation Answer
  | .execute command => return .outcome (← execute command)
  | .executeWith command transfer => return .outcome (← executeWith command transfer).1
  | .enableDma => return .enabled (← enableDma.run)
  | .reset => do
    reset
    return .nothing
  | .disableDma => do
    disableDma
    return .nothing
  | .selectDrive drive => do
    selectDrive drive
    return .nothing
  | .setMotor drive on => do
    setMotor drive on
    return .nothing
  | request => request.respond.careful

theorem find_careful (opening : Opening) : (opening.find placement).careful = find placement opening := by
  cases opening with
  | probe => exact probe_careful placement
  | discover => exact discover_careful placement

theorem respond_careful (request : Request) : request.respond.careful = respond request := by
  cases request <;> simp [Request.respond, Request.perform, respond]

end CarefulOperation

namespace Platform.Call

/-- The port that a call reads or writes. -/
def port? : Platform.Call → Option UInt16
  | input port | output port _ => some port
  | _ => none

/-- A register is found at an offset from the base address, and that sum does not overflow. -/
def InWindow (base : UInt16) (call : Platform.Call) : Prop :=
  ∀ port ∈ call.port?, ∃ offset ≤ 7, port.toNat = base.toNat + offset

end Platform.Call

theorem toNat_add_offset (hbase : base ≤ 0xFFF8) {offset : UInt16} (h : offset ≤ 7) :
    (base + offset).toNat = base.toNat + offset.toNat := by
  have hlow : base.toNat ≤ 0xFFF8 := UInt16.le_iff_toNat_le.mp hbase
  have hoffset : offset.toNat ≤ 7 := UInt16.le_iff_toNat_le.mp h
  rw [UInt16.toNat_add]
  exact Nat.mod_eq_of_lt (by omega)

theorem inWindow_of_owns (hbase : placement.base ≤ 0xFFF8) {call : Platform.Call} (h : placement.Owns call) :
    call.InWindow placement.base := by
  have hinside (offset : UInt16) (hoffset : offset ≤ 7) :
      ∃ k ≤ 7, (placement.base + offset).toNat = placement.base.toNat + k :=
    ⟨offset.toNat, UInt16.le_iff_toNat_le.mp hoffset, toNat_add_offset hbase hoffset⟩
  intro port hport
  cases call with
  | input p =>
    obtain rfl : p = port := by simpa [Platform.Call.port?] using hport
    obtain ⟨offset, hoffset, rfl⟩ : Port.Reads placement.base p := h
    have hsmall : ∀ offset ∈ ([0, 1, 2, 4, 5, 7] : List UInt16), offset ≤ 7 := by simp
    exact hinside offset (hsmall offset hoffset)
  | output p value =>
    obtain rfl : p = port := by simpa [Platform.Call.port?] using hport
    obtain ⟨offset, hoffset, rfl⟩ : Port.Writes placement.base p := h
    have hsmall : ∀ offset ∈ ([2, 5, 7] : List UInt16), offset ≤ 7 := by simp
    exact hinside offset (hsmall offset hoffset)
  | _ => simp [Platform.Call.port?] at hport

/-- On its own, or in a whole run, whatever is asked of a controller is done with care just as it is done without: nothing
is ever out of range. -/
theorem never_out_of_range {m : Memory} {events : List Memory.Event} (hbase : placement.base ≤ 0xFFF8)
    (hlines : ∀ s irq line s', follows s (.memory (.createLine irq)) line s' → line.irq = irq)
    (hfresh : ∀ id, (m.counter id).unacknowledged = 0) (hattended : Memory.Event.Attended events) :
    (∀ opening : Opening, CarefulOperation.find placement opening = (opening.find placement).careful) ∧
      (∀ request : Request, CarefulOperation.respond request = request.respond.careful) ∧
      CarefulOperation.release = Operation.release.careful ∧
      events.foldlM happen? m = some (events.foldl Memory.happen m) ∧
      ∀ (opening : Opening) s₀ moments found s₁, Passage follows (opening.find placement) s₀ moments found s₁ →
        (∀ x ∈ moments, x.exchange.call.InWindow placement.base) ∧
        ∀ c₀ ∈ found, ∀ stages c s, Tenure follows stirs (c₀, s₁) stages (c, s) →
          (∀ stage ∈ stages, ∀ x ∈ stage.moments, x.exchange.call.InWindow placement.base) ∧
          ∀ moments' c' s', Passage follows (Operation.release.run c) s moments' ((), c') s' →
            ∀ x ∈ moments', x.exchange.call.InWindow placement.base := by
  refine ⟨fun opening => (CarefulOperation.find_careful opening).symm, fun request => ?_,
    CarefulOperation.release_careful.symm, Memory.happens_careful hfresh hattended, ?_⟩
  · exact (CarefulOperation.respond_careful request).symm
  intro opening s₀ moments found s₁ hfound
  obtain ⟨hopening, hgranted⟩ := (ensures_find_granted opening hlines).contains hfound
  refine ⟨fun x hx => inWindow_of_owns hbase (hopening x hx).1, fun c₀ hc₀ stages c s htenure => ?_⟩
  obtain ⟨hc, hstages⟩ := tenure_contained htenure (hgranted c₀ hc₀)
  refine ⟨fun stage hstage x hx => inWindow_of_owns hbase ((hstages stage hstage).owned x hx), ?_⟩
  intro moments' c' s' hrelease
  have hreleases : Operation.Ensures (placement.within (fun _ => False) follows) Operation.release
      (fun _ => Granted placement) c s := leavable_granted.release steady_granted.calm.maskChannel c s hc
  exact fun x hx => inWindow_of_owns hbase ((hreleases.contains hrelease).1 x hx).1

/-- A controller is discovered; its line fires, is acknowledged and fires again. -/
theorem never_out_of_range_discovered : ∃ (events : List Memory.Event) (moments : List (Moment Platform Simulated))
    (found : Option Controller) (m₁ : Simulated),
    (0x3F0 : UInt16) ≤ 0xFFF8 ∧
      (∀ m irq line m', Simulated.restless.follows m (.memory (.createLine irq)) line m' → line.irq = irq) ∧
      (∀ id, (Memory.counter {} id).unacknowledged = 0) ∧ Memory.Event.Attended events ∧
      Passage Simulated.restless.follows (Controller.discover ⟨0x3F0, some 6, some 2⟩) {} moments found m₁ ∧
      found.isSome ∧ (∀ x ∈ moments, x.exchange.call.InWindow 0x3F0) ∧
      (events.foldlM happen? {}).map (fun m => (m.counter 0).unacknowledged) = some 1 := by
  let events : List Memory.Event :=
    [.call (.createLine 6), .fire 0, .fire 0, .call (.acknowledge 0), .fire 0]
  have hlines : ∀ m irq line m', Simulated.restless.follows m (.memory (.createLine irq)) line m' → line.irq = irq := by
    rintro m irq line m' ⟨_, hstep, -⟩
    exact congrArg (fun r => r.1.irq) hstep.symm
  have hfresh : ∀ id, (Memory.counter {} id).unacknowledged = 0 := fun id => by simp [Memory.counter]
  have hattended : Memory.Event.Attended events := by
    intro before after hsplit id
    have hlength : before.length ≤ events.length := by
      rw [hsplit, List.length_append]
      exact Nat.le_add_right ..
    have hfew := Memory.Event.unacknowledged_le_length id before
    have hevents : events.length < UInt32.size := by decide
    omega
  have hfound : ((Controller.discover ⟨0x3F0, some 6, some 2⟩).run Simulated.machine {}).1.isSome := by
    decide +kernel
  obtain ⟨moments, hopen⟩ := Simulated.keepsTo_restless.passage (Controller.discover ⟨0x3F0, some 6, some 2⟩) {}
  obtain ⟨-, -, -, hcounted, hwhole⟩ := @never_out_of_range Simulated
    Simulated.restless.follows Simulated.Reacts ⟨0x3F0, some 6, some 2⟩ {} events (by decide) hlines hfresh hattended
  refine ⟨events, moments, _, _, by decide, hlines, hfresh, hattended, hopen, hfound, ?_, ?_⟩
  · exact (hwhole .discover _ _ _ _ hopen).1
  · rw [hcounted]
    rfl

end Diskette
