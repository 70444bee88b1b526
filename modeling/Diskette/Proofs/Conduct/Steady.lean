import Diskette.Proofs.Conduct.Calm
import Diskette.Proofs.Execution

/-!
Operations that leave the interrupt line alone, and the gate to it. They keep every condition on the line and on
what hangs on it.
-/
namespace Diskette

variable {α σ : Type} {E : Surroundings Platform σ} {K : Controller → σ → Prop} {c c' : Controller} {s : σ}

/-- What a controller holds of its line, and the gate to it. -/
def Controller.wiring (c : Controller) : Controller :=
  { c.footing with
    shadow := { base := c.base, output := { gate := c.shadow.output.gate } }
    recording := {}, specified := none }

/-- The registers of a controller that are there to be written. -/
def Port.Writes (base port : UInt16) : Prop := ∃ offset ∈ ([2, 5, 7] : List UInt16), port = base + offset

namespace Port

theorem writes_digitalOutput {base : UInt16} : Writes base (digitalOutput base) := ⟨2, by simp, rfl⟩

theorem writes_data {base : UInt16} : Writes base (data base) := ⟨5, by simp, rfl⟩

theorem writes_configControl {base : UInt16} : Writes base (configControl base) := ⟨7, by simp, rfl⟩

end Port

/-- Plain calls, and writes that leave the gate as it is. -/
def Ordinary (c : Controller) : Platform.Call → Prop
  | .output port value => Port.Writes c.base port ∧
    (port = Port.digitalOutput c.base → (DigitalOutput.decode value).gate = c.shadow.output.gate)
  | call => Plain c.base c.channel call

/-- A condition that ordinary calls keep, and that is about the wiring only. -/
structure Steady (E : Surroundings Platform σ) (K : Controller → σ → Prop) : Prop where
  wiring : ∀ {c c' s}, c'.wiring = c.wiring → K c s → K c' s
  ordinary : ∀ {c s call}, Ordinary c call → K c s →
    E.permits s call ∧ ∀ r s', E.follows s call r s' → K c s'

theorem ordinary_of_plain {call : Platform.Call} (h : Plain c.base c.channel call) : Ordinary c call := by
  cases call <;> first | exact h | exact h.elim

theorem ordinary_of_talks {call : Platform.Call} (h : Fifo.Talks c.base call) : Ordinary c call := by
  cases call with
  | output port value =>
    obtain rfl : port = Port.data c.base := h
    refine ⟨Port.writes_data, fun houtput => ?_⟩
    exact absurd houtput (by simp [Port.data, Port.digitalOutput])
  | input port =>
    obtain rfl | rfl : port = Port.mainStatus c.base ∨ port = Port.data c.base := h
    · exact Port.reads_mainStatus
    · exact Port.reads_data
  | _ => first | exact h.elim | trivial

theorem Controller.wiring_of_footing (h : c'.footing = c.footing) : c'.wiring = c.wiring := by
  unfold wiring
  rw [h]
  have hshadow : c'.footing.shadow = c.footing.shadow := by rw [h]
  have hsame : c'.shadow = c.shadow := hshadow
  simp only [base, hsame]

namespace Controller

/-- What can be told from the wiring. -/
theorem eq_of_wiring {β : Type} {f : Controller → β} (hf : ∀ c, f c.wiring = f c) (h : c'.wiring = c.wiring) :
    f c' = f c := by
  rw [← hf c', h, hf c]

theorem base_of_wiring (h : c'.wiring = c.wiring) : c'.base = c.base := eq_of_wiring (fun _ => rfl) h

theorem line_of_wiring (h : c'.wiring = c.wiring) : c'.line = c.line := eq_of_wiring (fun _ => rfl) h

theorem channel_of_wiring (h : c'.wiring = c.wiring) : c'.channel = c.channel := eq_of_wiring (fun _ => rfl) h

theorem hooked_of_wiring (h : c'.wiring = c.wiring) : c'.hooked = c.hooked := eq_of_wiring (fun _ => rfl) h

theorem prior_of_wiring (h : c'.wiring = c.wiring) : c'.prior = c.prior := eq_of_wiring (fun _ => rfl) h

theorem path_of_wiring (h : c'.wiring = c.wiring) : c'.path = c.path := eq_of_wiring (fun _ => rfl) h

theorem gate_of_wiring (h : c'.wiring = c.wiring) : c'.shadow.output.gate = c.shadow.output.gate :=
  eq_of_wiring (f := fun c => c.shadow.output.gate) (fun _ => rfl) h

theorem stormReported_of_wiring (h : c'.wiring = c.wiring) : c'.stormReported = c.stormReported :=
  eq_of_wiring (fun _ => rfl) h

end Controller

theorem steady_wiring (wiring : Controller) : Steady recorded fun c _ => c.wiring = wiring :=
  ⟨fun hc h => hc.trans h, fun _ h => ⟨trivial, fun _ _ _ => h⟩⟩

namespace Steady

/-- What is steady is steady along with anything that is about the wiring only. -/
theorem and {P : Controller → Prop} (h : Steady E K)
    (hP : ∀ {c c' : Controller}, c'.wiring = c.wiring → P c → P c') : Steady E fun c s => K c s ∧ P c := by
  refine ⟨fun hc hK => ⟨h.wiring hc hK.1, hP hc hK.2⟩, fun hcall hK => ?_⟩
  obtain ⟨hpermits, hfollows⟩ := h.ordinary hcall hK.1
  exact ⟨hpermits, fun r s' hr => ⟨hfollows r s' hr, hK.2⟩⟩

theorem calm (h : Steady E K) : Calm E K :=
  calm_of_footing (fun hc => h.wiring (Controller.wiring_of_footing hc)) fun hcall => h.ordinary (ordinary_of_plain hcall)

theorem routine {p : Routine α} (h : Steady E K) (hp : p.Only (Ordinary c)) (hK : K c s) :
    p.Ensures E (fun _ => K c) s :=
  hp.ensures (fun _ _ hcall hs => h.ordinary hcall hs) hK

theorem modify {f : Controller → Controller} (h : Steady E K) (hf : ∀ c, (f c).wiring = c.wiring) :
    Operation.Keeps E K (modify f) := .modify fun c _ => h.wiring (hf c)

/-- The output register changes, but not the gate. -/
theorem writeOutput {f : Shadow → DigitalOutput} (h : Steady E K)
    (hf : ∀ s, (f s).gate = s.output.gate) :
    Operation.Keeps E K (Operation.shadowed fun s => s.writeOutput (f s)) := by
  intro c s hK
  rw [Operation.ensures_shadowed]
  have hwrite : (Platform.output (Port.digitalOutput c.base) (f c.shadow).encode).Only (Ordinary c) := by
    refine .perform ⟨Port.writes_digitalOutput, fun _ => ?_⟩
    rw [DigitalOutput.decode_encode, hf]
  refine Program.ensures_bind.mpr ((h.routine hwrite hK).mono fun _ s' hK' => ?_)
  refine h.wiring ?_ hK'
  simp only [Controller.wiring, Controller.footing, Controller.base, hf]

theorem configControl_ne_digitalOutput_base {base : UInt16} :
    Port.configControl base ≠ Port.digitalOutput base := by
  simp [Port.configControl, Port.digitalOutput]

theorem setRate (h : Steady E K) (rate : DataRate) : Operation.Keeps E K (Operation.setRate rate) := by
  intro c s hK
  rw [Operation.setRate, Operation.ensures_shadowed]
  have hwrite : (Platform.output (Port.configControl c.base) rate.encode).Only (Ordinary c) :=
    .perform ⟨Port.writes_configControl, fun hport => absurd hport configControl_ne_digitalOutput_base⟩
  exact Program.ensures_bind.mpr ((h.routine hwrite hK).mono fun _ _ hK' => h.wiring (by rfl) hK')

theorem resync (h : Steady E K) (hK : K c s) : c.shadow.resync.Ensures E (fun _ => K c) s := by
  have hwrite : c.shadow.resync.Only (Ordinary c) := by
    refine .bind (.perform ⟨Port.writes_digitalOutput, fun _ => ?_⟩) fun _ =>
      .perform ⟨Port.writes_configControl, fun hport => ?_⟩
    · rw [DigitalOutput.decode_encode]
    · exact absurd hport configControl_ne_digitalOutput_base
  exact h.routine hwrite hK

theorem pulseReset (h : Steady E K) : Operation.Keeps E K Operation.pulseReset :=
  .bind (h.writeOutput (by exact fun _ => rfl)) fun _ =>
    .bind (.lift fun _ _ hK => h.calm.routine (.perform (by trivial)) hK) fun _ =>
      h.writeOutput (by exact fun _ => rfl)

end Steady
end Diskette
