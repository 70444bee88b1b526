import Diskette.Proofs.Conduct.Requests
import Diskette.Proofs.Execution

/-!
Calls that arm no DMA channel. Nearly all of the driver makes no others, and turns to no channel but the one that
its controller was given.
-/
namespace Diskette

variable {α : Type} {channel : Option UInt8} {P R : History Platform → Prop} {c c' : Controller}
  {t t' u v : History Platform} {call : Platform.Call}

/-- Turns to no DMA channel but this one, and does not arm it. -/
def Unarmed (channel : Option UInt8) : Platform.Call → Prop
  | .channel number call => channel = some number ∧ ¬call.Arms
  | _ => True

/-- Makes some channel ready for a transfer. -/
def Platform.Call.Arms : Platform.Call → Prop
  | .channel _ call => call.Arms
  | _ => False

theorem not_arms_of_unarmed (h : Unarmed channel call) : ¬call.Arms := by
  cases call with
  | channel => exact h.2
  | _ => exact id

theorem unarmed_of_ordinary (h : Ordinary c call) : Unarmed c.channel call := by
  cases call <;> first | exact h | trivial

theorem unarmed_of_givesUp (h : GivesUp c call) : Unarmed channel call := by
  cases call <;> first | exact h.elim | trivial

/-- Calls that turn to no channel at all. -/
theorem Unarmed.of_none (h : Unarmed none call) : Unarmed channel call := by
  cases call with
  | channel => exact absurd h.1 nofun
  | _ => trivial

/-- The channel of a controller has not been armed since a certain point of the record. -/
structure Since (channel : Option UInt8) (P : History Platform → Prop) (c : Controller) (t : History Platform) :
    Prop where
  channel_eq : c.channel = channel
  grown : ∃ u v, t = u ++ v ∧ P u ∧ ∀ e ∈ v, Unarmed channel e.call

namespace Since

theorem start (hchannel : c.channel = channel) (h : P t) : Since channel P c t := ⟨hchannel, t, [], by simp [h]⟩

theorem of_channel (h : Since channel P c t) (hc : c'.channel = c.channel) : Since channel P c' t :=
  ⟨hc.trans h.channel_eq, h.grown⟩

theorem mono (h : Since channel P c t) (hP : ∀ u, P u → R u) : Since channel R c t := by
  obtain ⟨hchannel, u, v, rfl, hu, hv⟩ := h
  exact ⟨hchannel, u, v, rfl, hP u hu, hv⟩

theorem follows {r : Platform.Reply call} (h : Since channel P c t) (hcall : Unarmed channel call) :
    Since channel P c (t ++ [⟨call, r⟩]) := by
  obtain ⟨hchannel, u, v, rfl, hu, hv⟩ := h
  refine ⟨hchannel, u, v ++ [⟨call, r⟩], List.append_assoc .., hu, ?_⟩
  intro e he
  rcases List.mem_append.mp he with hold | hlast
  · exact hv e hold
  · obtain rfl := List.mem_singleton.mp hlast
    exact hcall

theorem routine {p : Routine α} (h : Since channel P c t) (hp : p.Only (Unarmed channel)) :
    p.Ensures recorded (fun _ => Since channel P c) t := by
  refine hp.ensures (K := Since channel P c) (fun t call hcall ht => ⟨trivial, ?_⟩) h
  rintro r _ rfl
  exact ht.follows hcall

end Since

theorem since_lift {p : Routine α} (hp : p.Only (Unarmed channel)) :
    Operation.Keeps recorded (Since channel P) (liftM p : Operation α) := .lift fun _ _ h => h.routine hp

theorem since_modify {f : Controller → Controller} (hf : ∀ c, (f c).channel = c.channel) :
    Operation.Keeps recorded (Since channel P) (modify f) := .modify fun c _ h => h.of_channel (hf c)

theorem steady_since : Steady recorded (Since channel P) := by
  refine ⟨fun hc h => h.of_channel (Controller.channel_of_wiring hc), fun hcall h => ⟨trivial, ?_⟩⟩
  rintro r _ rfl
  exact h.follows (h.channel_eq ▸ unarmed_of_ordinary hcall)

theorem leavable_since : Leavable recorded (Since channel P) where
  stance := steady_since.calm.stance
  givesUp hcall h := by
    refine ⟨trivial, ?_⟩
    rintro r _ rfl
    exact h.follows (unarmed_of_givesUp hcall)
  writeOutput _ := .get_bind fun c t h => Operation.Keeps.bind
    (since_lift (.bind (.perform (by trivial)) fun _ => .done)) (fun _ => since_modify (by exact fun _ => rfl)) c t h
  takePrior h := h.of_channel rfl
  unhook h := h.of_channel rfl
  toPort h := h.of_channel rfl

theorem since_hookLine (l : Line) : Operation.Keeps recorded (Since channel P) (Operation.hookLine l) := by
  have hbind : (Platform.uninterrupted (Platform.bind l.irq (.counting l))).Only (Unarmed channel) :=
    Platform.only_uninterrupted (by trivial) (by intro; trivial) (.perform (by trivial))
  refine .bind (since_lift (.perform (by trivial))) fun _ => ?_
  refine .bind (leavable_since.writeOutput (f := fun s => { s.output with gate := true }) fun _ => id) fun _ => ?_
  refine .bind (since_lift hbind) fun _ => .bind (since_modify (by exact fun _ => rfl)) fun _ => ?_
  refine .bind (since_lift (.perform (by trivial))) fun _ => .bind (since_lift (.perform (by trivial))) fun _ => ?_
  exact .bind (since_modify (by exact fun _ => rfl)) fun _ => steady_since.calm.log _

theorem since_enableDma : Operation.Keeps recorded (Since channel P) Operation.enableDma.run :=
  .enableDma fun c t l h _ _ => (h.routine (.perform (by trivial))).mono fun _ t' h' =>
    ⟨h', fun _ _ => since_hookLine l c t' h'⟩

/-- What is asked but commands. -/
theorem serviceable_since : Serviceable recorded (Since channel P) :=
  steady_since.serviceable (fun _ h => h.of_channel rfl) since_enableDma leavable_since.disableDma

theorem ensures_complete_since (early : Option Failure) (report : Report) (h : Since channel P c t) :
    Operation.Ensures recorded (Operation.complete early report)
      (fun report' c' t' => (∃ notice, report' = { report with notice }) ∧ Since channel P c' t') c t :=
  steady_since.calm.complete leavable_since.disableDma (fun _ h' => h'.of_channel rfl) early report h

/-- A failure is told before the controller is reset, and nothing is armed after that. -/
theorem ensures_recover_since (command : Command) (cause : Failure)
    (h : Since channel P c (t ++ [⟨.log c.base (.failed command cause), ()⟩])) :
    Operation.Ensures recorded (Operation.recover command cause) (fun _ => Since channel P) c t := by
  have hsteady : Steady recorded (Since channel P) := steady_since
  unfold Operation.recover
  rw [Operation.ensures_bind, Operation.ensures_log]
  refine Program.ensures_recorded.mpr fun _ => ?_
  refine Operation.Keeps.bind hsteady.calm.maskChannel (fun _ => ?_) c _ h
  refine .bind (hsteady.calm.modify (by exact fun _ => rfl)) fun _ => ?_
  exact .bind hsteady.enduring.reset fun _ => hsteady.calm.setPhase _

theorem findable_recorded (placement : Placement) : Controller.Findable recorded placement
    (fun t => ∀ e ∈ t, Unarmed none e.call) fun _ t => ∀ e ∈ t, Unarmed none e.call where
  finds := by
    intro t call hcall ht
    refine ⟨trivial, ?_⟩
    rintro r _ rfl e he
    rcases List.mem_append.mp he with hold | hlast
    · exact ht e hold
    · obtain rfl := List.mem_singleton.mp hlast
      cases call <;> trivial
  opens := by
    intro t ht
    cases placement.irq.filter Placement.usableIrq with
    | none => exact ht
    | some irq =>
      refine Program.ensures_recorded.mpr fun r e he => ?_
      rcases List.mem_append.mp he with hold | hlast
      · exact ht e hold
      · obtain rfl := List.mem_singleton.mp hlast
        trivial

/-- To find a controller, or none, arms nothing. -/
theorem ensures_find_unarmed (placement : Placement) (opening : Opening) :
    (opening.find placement).Ensures recorded (fun found t => (found = none → ∀ e ∈ t, Unarmed none e.call) ∧
      ∀ c ∈ found, Since c.channel (· = []) c t) [] := by
  have hnew : ∀ (c : Controller) (t : History Platform), c.New placement → (∀ e ∈ t, Unarmed none e.call) →
      Since c.channel (· = []) c t := fun c t _ ht => ⟨rfl, [], t, rfl, rfl, fun e he => (ht e he).of_none⟩
  have hready : Operation.Keeps recorded (fun c t => Since c.channel (· = []) c t) Controller.bringUp := by
    intro c t h
    exact (serviceable_since.bringUp c t h).mono fun _ c' t' h' => h'.channel_eq.symm ▸ h'
  cases opening with
  | probe => exact (findable_recorded placement).probe hnew (by simp)
  | discover => exact (findable_recorded placement).discover hnew hready (by simp)

end Diskette
