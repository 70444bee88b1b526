import Diskette.Proofs.Conduct.Steady
import Diskette.Proofs.Tenure

/-!
Finding a controller. What a look at the registers keeps holds until a line is opened, and a new controller has
nothing installed. Whoever can do with that can do with any controller that is found.
-/
namespace Diskette

variable {α σ : Type} {E : Surroundings Platform σ} {K : σ → Prop} {L : Option Line → σ → Prop}
  {G : Controller → σ → Prop} {placement : Placement} {s : σ}

namespace Controller

/-- A controller that was just classified. -/
structure New (placement : Placement) (c : Controller) : Prop where
  base_eq : c.base = placement.base
  channel_eq : c.channel = placement.channel.filter Placement.usableChannel
  outOfReset : c.shadow.output.resetAsserted = false
  path : c.path = .port
  hooked : c.hooked = false
  prior : c.prior = none
  specified : c.specified = none
  quiet : c.stormReported = false

/-- Calls that look at a base address, and take the controller there out of reset. -/
def Finds (base : UInt16) : Platform.Call → Prop
  | .output port value =>
    port = Port.digitalOutput base ∧ (DigitalOutput.decode value).resetAsserted = false
  | .input port => Port.Reads base port
  | .log _ _ => True
  | _ => False

/-- Surroundings in which a controller is found: a condition that lasts for the look, and what opening a line
makes of it. -/
structure Findable (E : Surroundings Platform σ) (placement : Placement) (K : σ → Prop)
    (L : Option Line → σ → Prop) : Prop where
  finds : ∀ {s call}, Finds placement.base call → K s → E.permits s call ∧ ∀ r s', E.follows s call r s' → K s'
  opens : ∀ {s}, K s → (openLine (placement.irq.filter Placement.usableIrq)).Ensures E L s

namespace Findable

theorem look {p : Routine α} (h : Findable E placement K L) (hp : p.Only (Finds placement.base)) (hs : K s) :
    p.Ensures E (fun _ => K) s := hp.ensures (fun _ _ hcall hs => h.finds hcall hs) hs

theorem classify (h : Findable E placement K L) (hs : K s) :
    (classify placement).Ensures E (fun c s' => c.New placement ∧ L c.line s') s := by
  have hinput : ∀ port, Port.Reads placement.base port → (Platform.input port).Only (Finds placement.base) :=
    fun _ hport => .perform hport
  have hstatus : (Fifo.readStatus placement.base).Only (Finds placement.base) :=
    .bind (hinput _ Port.reads_mainStatus) fun _ => .done
  have hwrite : ∀ gate, (Platform.output (Port.digitalOutput placement.base)
      (DigitalOutput.firmwareDefault gate).encode).Only (Finds placement.base) := by
    refine fun gate => .perform ⟨rfl, ?_⟩
    rw [DigitalOutput.decode_encode]
    rfl
  refine Program.ensures_bind.mpr ((h.look (hinput _ Port.reads_statusA) hs).mono fun a s₁ h₁ => ?_)
  refine Program.ensures_bind.mpr ((h.look (hinput _ Port.reads_statusB) h₁).mono fun b s₂ h₂ => ?_)
  refine Program.ensures_bind.mpr ((h.look (hinput _ Port.reads_digitalInput) h₂).mono fun input s₃ h₃ => ?_)
  refine Program.ensures_bind.mpr (Program.ensures_bind.mpr ((h.look (hwrite _) h₃).mono fun _ s₄ h₄ => ?_))
  refine Program.ensures_bind.mpr ((h.look hstatus h₄).mono fun _ s₅ h₅ => ?_)
  refine Program.ensures_bind.mpr ((h.look (hinput _ Port.reads_digitalOutput) h₅).mono fun readBack s₆ h₆ => ?_)
  refine Program.ensures_bind.mpr ((h.opens h₆).mono fun line s₇ h₇ => ?_)
  exact ⟨⟨rfl, rfl, rfl, rfl, rfl, rfl, rfl, rfl⟩, h₇⟩

/-- The condition has lasted if nothing was there. -/
theorem probe (h : Findable E placement K L) (hnew : ∀ c s, c.New placement → L c.line s → G c s) (hs : K s) :
    (probe placement).Ensures E (fun found s' => (found = none → K s') ∧ ∀ c ∈ found, G c s') s := by
  have hlook : (Platform.input (Port.mainStatus placement.base)).Only (Finds placement.base) :=
    .perform Port.reads_mainStatus
  refine Program.ensures_bind.mpr ((h.look hlook hs).mono fun status s₁ h₁ => ?_)
  rw [Program.ensures_ite]
  split
  · have hlog : (Platform.log placement.base .nothingPresent).Only (Finds placement.base) := .perform (by trivial)
    exact Program.ensures_bind.mpr ((h.look hlog h₁).mono fun _ s₂ h₂ => ⟨fun _ => h₂, by simp⟩)
  · refine Program.ensures_bind.mpr ((h.classify h₁).mono ?_)
    rintro c s₂ ⟨hc, hline⟩
    refine ⟨nofun, ?_⟩
    rintro _ ⟨⟩
    exact hnew c s₂ hc hline

theorem discover (h : Findable E placement K L) (hnew : ∀ c s, c.New placement → L c.line s → G c s)
    (hready : Operation.Keeps E G bringUp) (hs : K s) :
    (discover placement).Ensures E (fun found s' => (found = none → K s') ∧ ∀ c ∈ found, G c s') s := by
  refine Program.ensures_bind.mpr ((h.probe hnew hs).mono ?_)
  rintro (_ | c) s₁ ⟨hnone, hfound⟩
  · exact ⟨hnone, by simp⟩
  · refine Program.ensures_bind.mpr (Program.Ensures.mono (hready c s₁ (hfound c rfl)) ?_)
    rintro ⟨_, c'⟩ s₂ h₂
    refine ⟨nofun, ?_⟩
    rintro _ ⟨⟩
    exact h₂

theorem find (h : Findable E placement K L) (hnew : ∀ c s, c.New placement → L c.line s → G c s)
    (hready : Operation.Keeps E G bringUp) (opening : Opening) (hs : K s) :
    (opening.find placement).Ensures E (fun found s' => ∀ c ∈ found, G c s') s := by
  cases opening with
  | probe => exact (h.probe hnew hs).mono fun _ _ => And.right
  | discover => exact (h.discover hnew hready hs).mono fun _ _ => And.right

end Findable
end Controller

namespace Calm

theorem resetUnready (h : Calm E G) (hreset : Operation.Keeps E G Operation.reset) :
    Operation.Keeps E G Controller.resetUnready :=
  .bind h.mainStatus fun _ =>
    .ite (fun _ => .bind (h.log _) fun _ => hreset) fun _ => .pure

theorem chooseChannel (h : Calm E G) (henable : Operation.Keeps E G Operation.enableDma.run) :
    Operation.Keeps E G Controller.chooseChannel :=
  .get_bind fun c s hs => by
    rw [Operation.ensures_ite]
    split
    · refine Operation.Keeps.bind henable (fun r => ?_) c s hs
      cases r with
      | ok => exact .pure
      | error cause => exact h.log _
    · exact hs

theorem bringUp (h : Calm E G) (hreset : Operation.Keeps E G Operation.reset)
    (henable : Operation.Keeps E G Operation.enableDma.run) : Operation.Keeps E G Controller.bringUp :=
  .bind (h.resetUnready hreset) fun _ => .bind (h.chooseChannel henable) fun _ =>
    .get_bind fun c s hs => h.log _ c s hs

end Calm
end Diskette
