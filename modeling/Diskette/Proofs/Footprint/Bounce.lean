import Diskette.Proofs.Conduct.Requests
import Diskette.Proofs.Failing
import Diskette.Proofs.Tenure

/-!
What the driver puts into the bounce buffer, and when. Bytes get there for the length of a transfer that is written, and
while the DMA path is taken; a line that is given back is the end of that.
-/
namespace Diskette

variable {σ : Type} {path : DataPath} {c : Controller} {t : History Platform} {call : Platform.Call} {n : Nat}

namespace Memory.Call

/-- Leaves the bounce buffer as it is from so many bytes on. -/
def SparesAfter (call : Memory.Call) (n : Nat) : Prop :=
  ∀ m : Memory, (m.step call).2.bounce.toList.drop n = m.bounce.toList.drop n

theorem sparesAfter_of_spares {call : Memory.Call} (h : call.Spares) : call.SparesAfter n := by
  intro m
  cases call with
  | store => exact h.elim
  | _ => rfl

theorem sparesAfter_store {bytes : List UInt8} (h : bytes.length ≤ n) : (store bytes).SparesAfter n :=
  fun m => m.drop_write (by omega)

end Memory.Call

namespace Platform.Call

def SparesAfter : Platform.Call → Nat → Prop
  | .memory call, n => call.SparesAfter n
  | _, _ => True

/-- Puts bytes into the bounce buffer. -/
def Stores (call : Platform.Call) (bytes : List UInt8) : Prop := call = .memory (.store bytes)

/-- Gives an interrupt line back. -/
def Returns : Platform.Call → Prop
  | .restore _ _ => True
  | _ => False

theorem sparesAfter_of_stores (h : ∀ bytes, call.Stores bytes → bytes.length ≤ n) : call.SparesAfter n := by
  cases call with
  | memory call =>
    cases call with
    | store bytes => exact Memory.Call.sparesAfter_store (h bytes rfl)
    | _ => exact Memory.Call.sparesAfter_of_spares trivial
  | _ => trivial

end Platform.Call

/-- No call of a history that started on some path has put anything into the bounce buffer once that was not the DMA
path any longer. -/
structure Timely (path : DataPath) (t : History Platform) : Prop where
  taken : ∀ e ∈ t, ∀ bytes, e.call.Stores bytes → path = .channel
  kept : t.Pairwise fun earlier later => earlier.call.Returns → ∀ bytes, ¬later.call.Stores bytes

/-- The DMA path is taken only if it has been all along. -/
structure Onward (path : DataPath) (c : Controller) (t : History Platform) : Prop where
  timely : Timely path t
  held : c.path = .channel → path = .channel ∧ ∀ e ∈ t, ¬e.call.Returns

theorem timely_nil : Timely path [] := ⟨by simp, .nil⟩

theorem Timely.concat {e : Exchange Platform} (h : Timely path t) (htaken : ∀ bytes, e.call.Stores bytes →
    path = .channel ∧ ∀ earlier ∈ t, ¬earlier.call.Returns) : Timely path (t ++ [e]) := by
  constructor
  · intro e' he' bytes hstores
    rcases List.mem_append.mp he' with hold | hlast
    · exact h.taken e' hold bytes hstores
    · obtain rfl := List.mem_singleton.mp hlast
      exact (htaken bytes hstores).1
  · refine List.pairwise_append.mpr ⟨h.kept, List.pairwise_singleton _ _, ?_⟩
    intro earlier hearlier later hlater hreturns bytes hstores
    obtain rfl := List.mem_singleton.mp hlater
    exact (htaken bytes hstores).2 earlier hearlier hreturns

theorem Timely.other {e : Exchange Platform} (h : Timely path t) (hother : ∀ bytes, ¬e.call.Stores bytes) :
    Timely path (t ++ [e]) := h.concat fun bytes hstores => absurd hstores (hother bytes)

theorem Onward.other {e : Exchange Platform} (h : Onward path c t) (hother : ∀ bytes, ¬e.call.Stores bytes)
    (hreturns : ¬e.call.Returns) : Onward path c (t ++ [e]) := by
  refine ⟨h.timely.other hother, fun hpath => ⟨(h.held hpath).1, fun e' he' => ?_⟩⟩
  rcases List.mem_append.mp he' with hold | hlast
  · exact (h.held hpath).2 e' hold
  · obtain rfl := List.mem_singleton.mp hlast
    exact hreturns

theorem not_stores_of_givesUp (h : GivesUp c call) (bytes : List UInt8) : ¬call.Stores bytes := by
  rintro rfl
  exact h

theorem not_stores_of_ordinary (h : Ordinary c call) (bytes : List UInt8) : ¬call.Stores bytes := by
  rintro rfl
  exact h

theorem not_returns_of_ordinary (h : Ordinary c call) : ¬call.Returns := by
  cases call with
  | restore => exact h.elim
  | _ => exact id

theorem steady_onward : Steady recorded (Onward path) where
  wiring hc h := ⟨h.timely, fun hpath => h.held ((Controller.path_of_wiring hc).symm.trans hpath)⟩
  ordinary hcall h := by
    refine ⟨trivial, fun r t' ht' => ?_⟩
    obtain rfl : t' = _ := ht'
    exact h.other (not_stores_of_ordinary hcall) (not_returns_of_ordinary hcall)

theorem leavable_timely : Leavable recorded fun _ t => Timely path t where
  stance _ := id
  givesUp hcall h := by
    refine ⟨trivial, fun r t' ht' => ?_⟩
    obtain rfl : t' = _ := ht'
    exact h.other (not_stores_of_givesUp hcall)
  takePrior := id
  unhook := id
  toPort := id
  writeOutput _ c t h := by
    refine Operation.ensures_shadowed.mpr ⟨trivial, fun r t' ht' => ?_⟩
    obtain rfl : t' = _ := ht'
    exact h.other nofun

theorem ensures_disableDma_port :
    Operation.Ensures recorded Operation.disableDma (fun _ c' _ => c'.path = .port) c t := by
  have hany : ∀ {op : Operation Unit} {c : Controller} {t : History Platform},
      Operation.Ensures recorded op (fun _ _ _ => True) c t := fun {op c t} => yields_always (op.run c) trivial t
  refine Operation.ensures_bind.mpr (hany.mono fun _ _ _ _ => ?_)
  refine Operation.ensures_bind.mpr (hany.mono fun _ _ _ _ => ?_)
  refine Operation.ensures_bind.mpr (hany.mono fun _ _ _ _ => ?_)
  exact Operation.ensures_bind.mpr (hany.mono fun _ _ _ _ => rfl)

theorem onward_disableDma : Operation.Keeps recorded (Onward path) Operation.disableDma := by
  intro c t h
  refine ((leavable_timely.disableDma c t h.timely).and ensures_disableDma_port).mono ?_
  rintro _ c' t' ⟨htimely, hport⟩
  exact ⟨htimely, fun hpath => by simp [hport] at hpath⟩

theorem armable_onward (transfer : Transfer) : Armable recorded (Onward path) transfer where
  told _ h := by
    refine ⟨trivial, fun r t' ht' => ?_⟩
    obtain rfl : t' = _ := ht'
    exact h.other nofun id
  fills hpath h := by
    unfold Operation.fillBounce
    split
    · refine ⟨trivial, fun r t' ht' => ?_⟩
      obtain rfl : t' = _ := ht'
      obtain ⟨htaken, hkept⟩ := h.held hpath
      refine ⟨h.timely.concat fun _ _ => ⟨htaken, hkept⟩, fun _ => ⟨htaken, fun e he => ?_⟩⟩
      rcases List.mem_append.mp he with hold | hlast
      · exact hkept e hold
      · obtain rfl := List.mem_singleton.mp hlast
        exact id
    · exact h

/-- Whatever comes of a command, it has put nothing into the bounce buffer once the DMA path was left. -/
theorem onward_perform (command : Command) (transfer : Option Transfer) :
    Operation.Keeps recorded (Onward path) (Operation.perform command transfer) :=
  steady_onward.calm.toPatient.perform (F := fun _ => Onward path) onward_disableDma (fun _ h => ⟨h.timely, h.held⟩)
    (fun _ => steady_onward.enduring.carryOut _ _ _ fun t _ => armable_onward t)
    fun cause h => steady_onward.enduring.recover _ cause _ _ h

end Diskette
