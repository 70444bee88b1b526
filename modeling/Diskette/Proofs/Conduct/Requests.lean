import Diskette.Proofs.Acceptance
import Diskette.Proofs.Conduct.DataPath
import Diskette.Proofs.Conduct.Discovery
import Diskette.Proofs.Conduct.Enduring

/-!
Whatever is asked of a controller, and a condition that is kept by all of it. The reset that follows a failure
restores the condition from what the failure has left of it.
-/
namespace Diskette

variable {σ : Type} {E : Surroundings Platform σ} {K : Controller → σ → Prop} {F : Failure → Controller → σ → Prop}
  {command : Command} {bytes : List UInt8} {t : Option Transfer}

/-- What is to be known of the parts of the driver for a condition to be kept by all that is asked of it but
commands. -/
structure Serviceable (E : Surroundings Platform σ) (K : Controller → σ → Prop) : Prop where
  calm : Calm E K
  writeOutput : ∀ {f : Shadow → DigitalOutput}, (∀ s, (f s).gate = s.output.gate) →
    (∀ s, s.output.resetAsserted = false → (f s).resetAsserted = false) →
    Operation.Keeps E K (Operation.shadowed fun s => s.writeOutput (f s))
  setRate : ∀ rate, Operation.Keeps E K (Operation.setRate rate)
  setRecording : ∀ recording, Operation.Keeps E K (Operation.setRecording recording)
  reported : ∀ {c s} stormReported, K c s → K { c with stormReported } s
  reset : Operation.Keeps E K Operation.reset
  enableDma : Operation.Keeps E K Operation.enableDma.run
  disableDma : Operation.Keeps E K Operation.disableDma

/-- A condition that is kept by all that is asked of the driver. -/
structure Obliging (E : Surroundings Platform σ) (K : Controller → σ → Prop)
    (F : Failure → Controller → σ → Prop) : Prop extends Serviceable E K where
  carryOut : ∀ {command bytes t drive recording}, Operation.Prepared drive recording command t bytes →
    Delivery.Keeps E K F (Operation.carryOut command bytes t)
  recover : ∀ {c s} command cause, F cause c s →
    Operation.Ensures E (Operation.recover command cause) (fun _ => K) c s

/-- What is steady is kept by most of what is asked. -/
theorem Steady.serviceable (h : Steady E K) (hreported : ∀ {c s} stormReported, K c s → K { c with stormReported } s)
    (henable : Operation.Keeps E K Operation.enableDma.run) (hdisable : Operation.Keeps E K Operation.disableDma) :
    Serviceable E K where
  calm := h.calm
  writeOutput hgate _ := h.writeOutput hgate
  setRate := h.setRate
  setRecording _ := h.modify fun _ => rfl
  reported := hreported
  reset := h.enduring.reset
  enableDma := henable
  disableDma := hdisable

theorem Steady.obliging (h : Steady E K) (harm : ∀ t, Armable E K t)
    (hreported : ∀ {c s} stormReported, K c s → K { c with stormReported } s)
    (henable : Operation.Keeps E K Operation.enableDma.run) (hdisable : Operation.Keeps E K Operation.disableDma) :
    Obliging E K fun _ => K where
  toServiceable := h.serviceable hreported henable hdisable
  carryOut _ := h.enduring.carryOut _ _ _ fun t _ => harm t
  recover command cause hK := h.enduring.recover command cause _ _ hK

/-- The command that is asked for, and what comes with it. -/
def Request.command? : Request → Option (Command × Option Transfer)
  | .execute command => some (command, none)
  | .executeWith command t => some (command, some t)
  | _ => none

namespace Patient

variable {Q : Report → List UInt8 → Controller → σ → Prop} {G : Failure → List UInt8 → Controller → σ → Prop}
  {c : Controller} {s : σ}

/-- A condition lasts until a command is carried out. -/
theorem undertake (h : Patient E K) (hdisable : Operation.Keeps E K Operation.disableDma)
    (hcarry : ∀ c s, K c s → Delivery.Ensures E (Operation.carryOut command bytes t) Q G [] c s) (hK : K c s) :
    Operation.Ensures E (Operation.undertake command bytes t) (fun pass c' s' => match pass.outcome with
      | .ok report => Q report pass.delivered c' s'
      | .error cause => G cause pass.delivered c' s') c s := by
  refine Operation.ensures_bind.mpr ((h.noticeStorm hdisable c s hK).mono fun early c₁ s₁ h₁ => ?_)
  refine Operation.ensures_bind.mpr ((h.setPhase _ c₁ s₁ h₁).mono fun _ c₂ s₂ h₂ => ?_)
  rw [Operation.ensures_bind, Operation.ensures_get, Operation.ensures_bind]
  refine (h.log _ c₂ s₂ h₂).mono fun _ c₃ s₃ h₃ => ?_
  rw [Operation.ensures_bind, Delivery.ensures_run]
  exact hcarry c₃ s₃ h₃

end Patient

/-- A report is handed back as it is, but for a notice. -/
theorem Sedate.complete {c : Controller} {s : σ} (h : Sedate E K) (hdisable : Operation.Keeps E K Operation.disableDma)
    (hreported : ∀ {c s} stormReported, K c s → K { c with stormReported } s) (early : Option Failure)
    (report : Report) (hK : K c s) :
    Operation.Ensures E (Operation.complete early report)
      (fun report' c' s' => (∃ notice, report' = { report with notice }) ∧ K c' s') c s := by
  have htake : Operation.Keeps E K (Operation.takeNotice early) := by
    cases early with
    | none => exact h.noticeStorm hdisable
    | some notice => exact .pure
  refine Operation.ensures_bind.mpr ((h.setPhase _ c s hK).mono fun _ c₁ s₁ h₁ => ?_)
  refine Operation.ensures_bind.mpr ((htake c₁ s₁ h₁).mono fun notice c₂ s₂ h₂ => ?_)
  exact ⟨⟨notice, rfl⟩, hreported _ h₂⟩

/-- A condition is kept by a command, if the reset that follows a failure restores it. -/
theorem Patient.perform (h : Patient E K) (hdisable : Operation.Keeps E K Operation.disableDma)
    (hreported : ∀ {c s} stormReported, K c s → K { c with stormReported } s)
    (hcarry : ∀ {bytes drive recording}, Operation.Prepared drive recording command t bytes →
      Delivery.Keeps E K F (Operation.carryOut command bytes t))
    (hrecover : ∀ {c s} cause, F cause c s →
      Operation.Ensures E (Operation.recover command cause) (fun _ => K) c s) :
    Operation.Keeps E K (Operation.perform command t) := by
  intro c s hK
  unfold Operation.perform
  refine Operation.ensures_bind.mpr ((Operation.ensures_prepare (h.plain (by trivial) hK) hK).mono ?_)
  rintro (cause | bytes) c₁ s₁ ⟨rfl, h₁, hprepared⟩
  · exact h₁
  have hpass := h.undertake hdisable (hcarry (hprepared bytes rfl) []) h₁
  refine Operation.ensures_bind.mpr (hpass.mono ?_)
  rintro ⟨early, outcome, delivered⟩ c₂ s₂ h₂
  cases outcome with
  | ok report =>
    have hcomplete := h.complete hdisable hreported early report h₂
    exact Operation.ensures_bind.mpr (hcomplete.mono fun _ _ _ => And.right)
  | error cause => exact Operation.ensures_bind.mpr ((hrecover cause h₂).mono fun _ _ _ => id)

theorem Serviceable.perform (h : Serviceable E K)
    (hcarry : ∀ {bytes drive recording}, Operation.Prepared drive recording command t bytes →
      Delivery.Keeps E K F (Operation.carryOut command bytes t))
    (hrecover : ∀ {c s} cause, F cause c s →
      Operation.Ensures E (Operation.recover command cause) (fun _ => K) c s) :
    Operation.Keeps E K (Operation.perform command t) :=
  h.calm.toPatient.perform h.disableDma h.reported hcarry hrecover

theorem Obliging.perform (h : Obliging E K F) (command : Command) (t : Option Transfer) :
    Operation.Keeps E K (Operation.perform command t) :=
  h.toServiceable.perform h.carryOut fun cause => h.recover command cause

namespace Serviceable

theorem respond (h : Serviceable E K) (request : Request)
    (hcommand : ∀ command t, request.command? = some (command, t) → Operation.Keeps E K (Operation.perform command t)) :
    Operation.Keeps E K request.respond := by
  cases request with
  | execute command => exact .bind (.bind (hcommand command none rfl) fun _ => .pure) fun _ => .pure
  | executeWith command t => exact .bind (.bind (hcommand command (some t) rfl) fun _ => .pure) fun _ => .pure
  | enableDma => exact .bind h.enableDma fun _ => .pure
  | disableDma => exact .bind h.disableDma fun _ => .pure
  | reset => exact .bind h.reset fun _ => .pure
  | selectDrive drive =>
    exact .bind (h.writeOutput (f := fun s => { s.output with drive }) (fun _ => rfl) fun _ => id) fun _ => .pure
  | setMotor drive on =>
    exact .bind (h.writeOutput (f := fun s => s.output.setMotor drive on) (fun _ => rfl) fun _ => id) fun _ => .pure
  | setRate rate => exact .bind (h.setRate rate) fun _ => .pure
  | setRecording recording => exact .bind (h.setRecording recording) fun _ => .pure
  | mainStatus => exact .bind (.bind h.calm.mainStatus fun _ => .pure) fun _ => .pure
  | digitalInput => exact .bind (.bind h.calm.digitalInput fun _ => .pure) fun _ => .pure
  | ps2Status => exact .bind (.bind h.calm.ps2Status fun _ => .pure) fun _ => .pure

theorem bringUp (h : Serviceable E K) : Operation.Keeps E K Controller.bringUp := h.calm.bringUp h.reset h.enableDma

end Serviceable

namespace Obliging

theorem respond (h : Obliging E K F) (request : Request) : Operation.Keeps E K request.respond :=
  h.toServiceable.respond request fun command t _ => h.perform command t

theorem request (h : Obliging E K F) (request : Request) : Operation.Keeps E K request.perform := by
  rw [request.perform_eq]
  exact .bind (h.respond request) fun _ => .pure

end Obliging
end Diskette
