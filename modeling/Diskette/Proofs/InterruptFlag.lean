import Diskette.Proofs.Handshake
import Diskette.Proofs.Ownership.Spurious
import Diskette.Proofs.Tenure

/-!
The processor's flag over whole runs on the simulated machine. Two calls alone change it, and no interrupt
does; where each suppression has its restore, the flag is at the end of a run what it was at the start.
-/
namespace Diskette

open Simulated

variable {α : Type} {m m' : Simulated} {t : History Platform} {x z : Controller × Simulated}
  {stages : List (Stage Simulated)}

theorem KeepsFlag.cons {flag : Bool} {e : Exchange Platform} (he : ∀ b, e = ⟨.suppress, b⟩ → b = flag)
    (h : KeepsFlag (flagAfter flag [e]) t) : KeepsFlag flag (e :: t) := by
  intro before b later hsplit
  cases before with
  | nil => exact he b (List.cons.inj hsplit).1
  | cons first before =>
    obtain ⟨rfl, hrest⟩ := List.cons.inj hsplit
    exact h before b later hrest

namespace Simulated

theorem enabled_step (m : Simulated) (call : Platform.Call) : (m.step call).2.interrupts.enabled =
    flagAfter m.interrupts.enabled [⟨call, (m.step call).1⟩] := by
  cases call with
  | input port => exact (reacts_input m port).interrupts.steadfast.enabled
  | output port value => exact (reacts_output m port value).interrupts.steadfast.enabled
  | unmaskLine irq => exact (InterruptUnit.Stirs.refl (u := m.interrupts.unmask irq)).deliver.steadfast.enabled
  | resume wasEnabled =>
    cases wasEnabled with
    | false => exact (Bool.or_false _).symm
    | true =>
      have hdelivered := (InterruptUnit.Stirs.refl (u := { m.interrupts with enabled := true })).deliver
      exact hdelivered.steadfast.enabled.trans (Bool.or_true _).symm
  | _ => rfl

/-- A suppression is answered with the flag, and no other call or interrupt touches it but the restore. -/
theorem flag_passage {p : Routine α} {ms : List (Moment Platform Simulated)} {a : α}
    (h : Passage restless.follows p m ms a m') :
    KeepsFlag m.interrupts.enabled (ms.map (·.exchange)) ∧
      m'.interrupts.enabled = flagAfter m.interrupts.enabled (ms.map (·.exchange)) := by
  induction h with
  | done a m => exact ⟨by intro before b later hsplit; simp at hsplit, rfl⟩
  | @call call next r m m₁ m' ms a hfollows _ ih =>
    obtain ⟨m₀, hstep, hreacts⟩ := hfollows
    have hflag : m₁.interrupts.enabled = flagAfter m.interrupts.enabled [⟨call, r⟩] := by
      have hcall := enabled_step m call
      rw [hstep] at hcall
      exact hreacts.interrupts.steadfast.enabled.trans hcall
    obtain ⟨hkeeps, hend⟩ := ih
    rw [hflag] at hkeeps hend
    refine ⟨.cons ?_ hkeeps, hend⟩
    rintro b ⟨⟩
    exact (congrArg Prod.fst hstep).symm

end Simulated

/-- A run whose windows are all closed leaves the flag as it found it. -/
theorem enabled_of_matched {p : Routine α} {ms : List (Moment Platform Simulated)} {a : α}
    (h : Passage restless.follows p m ms a m') (hmatched : Matched (ms.map (·.exchange))) :
    m'.interrupts.enabled = m.interrupts.enabled := by
  obtain ⟨hkeeps, hend⟩ := flag_passage h
  rw [hend]
  exact flagAfter_of_matched hmatched _ hkeeps

theorem matched_of_rests {base : UInt16} {p : Routine α} {a : α} {Q : α → Wire → Prop}
    (hp : p.Ensures (Wire.tapped base) Q {}) (hQ : ∀ a w, Q a w → w.windows = []) (h : Execution p t a) :
    Matched t := by
  obtain ⟨haccepts, hend⟩ := h.heard hp
  exact closes_of_accepts haccepts (hQ _ _ hend)

theorem matched_of_tidy {c : Controller} {op : Operation α} {r : α × Controller}
    (hop : Wire.OperationTidy c.base op) (h : Execution (op.run c) t r) : Matched t :=
  matched_of_rests (hop [] c {} ⟨rfl, rfl, rfl⟩) (fun _ _ hend => hend.rests.windows) h

theorem Wire.tidy_respond {base : UInt16} (request : Request) : OperationTidy base request.respond := by
  intro windows c w h
  have hrequest := tidy_request request windows c w h
  rw [request.perform_eq, Operation.ensures_bind] at hrequest
  exact hrequest

theorem matched_find (opening : Opening) {placement : Placement} {found : Option Controller}
    (h : Execution (opening.find placement) t found) : Matched t := by
  cases opening with
  | probe => exact matched_of_rests (Wire.rests_probe placement ⟨rfl, rfl⟩) (fun _ _ hend => hend.2.windows) h
  | discover => exact matched_of_rests (Wire.rests_discover placement ⟨rfl, rfl⟩) (fun _ _ hend => hend.2.windows) h

/-- Whatever is asked of a controller, and whatever the hardware does in between. -/
theorem enabled_tenure (h : Tenure restless.follows Reacts x stages z) :
    z.2.interrupts.enabled = x.2.interrupts.enabled := by
  induction h with
  | start => rfl
  | stir _ hreacts ih => exact hreacts.interrupts.steadfast.enabled.trans ih
  | ask request _ hpassage ih =>
    exact (enabled_of_matched hpassage (matched_of_tidy (Wire.tidy_respond request) hpassage.execution)).trans ih

end Diskette
