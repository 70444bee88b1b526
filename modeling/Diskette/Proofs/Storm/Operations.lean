import Diskette.Proofs.Conduct.DataPath
import Diskette.Proofs.Conduct.Polling
import Diskette.Proofs.Standing
import Diskette.Proofs.Storm.Exposure

/-!
Operations in a storm. The line may be degraded before a command, in the midst of it, or by the time it is
over; the gate is closed and the line is given back at the first look that finds it so, and the first report
after that says so.
-/
namespace Diskette

variable {α : Type} {line : Option Line} {stormed flagged : Prop} {c c' : Controller} {x y : Exposure}

namespace Controller

/-- Off the DMA path, with nothing to be interrupted by. -/
structure OffLine (c : Controller) : Prop where
  path : c.path = .port
  hooked : c.hooked = false
  prior : c.prior = none
  gate : c.shadow.output.gate = false

theorem OffLine.unhooked : c.unhooked.OffLine := ⟨rfl, rfl, rfl, rfl⟩

theorem OffLine.of_wiring (h : c.OffLine) (hc : c'.wiring = c.wiring) : c'.OffLine :=
  ⟨(path_of_wiring hc).trans h.path, (hooked_of_wiring hc).trans h.hooked, (prior_of_wiring hc).trans h.prior,
    (gate_of_wiring hc).trans h.gate⟩

end Controller

namespace Exposure

/-- A storm that has come before leaves the line masked. -/
def Spares (line : Option Line) (stormed : Prop) (call : Platform.Call) : Prop :=
  stormed → ∀ l ∈ line, call ≠ .unmaskLine l.irq

/-- Exposed to interrupts, with the line to be left masked after a storm. -/
abbrev sparing (line : Option Line) (stormed : Prop) : Surroundings Platform Exposure :=
  surroundings (Spares line stormed)

/-- A controller on its line. The handler is installed just while the DMA path is taken, and once it has been
handed over, the gate is open no longer than that. -/
structure Attached (line : Option Line) (flagged : Prop) (c : Controller) (x : Exposure) : Prop where
  line_eq : c.line = line
  hooked : c.hooked ↔ c.path = .channel
  lined : c.path = .channel → line.isSome
  cleared : c.hooked = false → c.prior = none
  gated : ∀ l ∈ line, x.handed l.id ∨ x.degraded l.id → c.path = .channel ∨ c.shadow.output.gate = false
  stormy : flagged → x.stormy line

theorem Attached.hookSound (h : Attached line flagged c x) : c.HookSound := by
  refine ⟨fun hhooked => ?_, h.cleared⟩
  rw [h.line_eq]
  exact h.lined (h.hooked.mp hhooked)

theorem Attached.follows {call : Platform.Call} {r : Platform.Reply call} (h : Attached line flagged c x)
    (hcall : (x.called call).handed = x.handed) (hy : follows x call r y) : Attached line flagged c y := by
  refine ⟨h.line_eq, h.hooked, h.lined, h.cleared, fun l hl hmay => h.gated l hl ?_, fun hs => ?_⟩
  · rcases hmay with hhanded | hdegraded
    · exact .inl (hcall ▸ follows_handed hy hhanded)
    · rcases follows_rises hy hdegraded with hdegraded | hhanded
      · exact .inr hdegraded
      · exact .inl (hcall ▸ hhanded)
  · exact stormy_follows hy (h.stormy hs)

theorem Attached.stirred (h : Attached line flagged c x) (hy : Stirred x y) : Attached line flagged c y := by
  have hfollows : Exposure.follows x (.delay 0) () y := ⟨trivial, hy⟩
  exact h.follows rfl hfollows

theorem spares_of_ordinary {call : Platform.Call} (h : Ordinary c call) : Spares line stormed call := by
  rintro - l - rfl
  exact h

theorem handed_of_ordinary {call : Platform.Call} (h : Ordinary c call) : (x.called call).handed = x.handed := by
  cases call <;> first | rfl | exact h.elim

theorem steady_attached : Steady (sparing line stormed) (Attached line flagged) := by
  refine ⟨?_, fun hcall h => ⟨spares_of_ordinary hcall, fun _ _ hy => h.follows (handed_of_ordinary hcall) hy⟩⟩
  intro c c' x hc h
  have hhooked := Controller.hooked_of_wiring hc
  have hprior := Controller.prior_of_wiring hc
  have hpath := Controller.path_of_wiring hc
  have hgate := Controller.gate_of_wiring hc
  exact ⟨(Controller.line_of_wiring hc).trans h.line_eq, by rw [hhooked, hpath]; exact h.hooked,
    by rw [hpath]; exact h.lined, by rw [hhooked, hprior]; exact h.cleared,
    by rw [hpath, hgate]; exact h.gated, h.stormy⟩

theorem armable_attached : ∀ t, Armable (sparing line stormed) (Attached line flagged) t := by
  refine .of_stored (fun {c x number call} _ h => ⟨fun _ _ _ => nofun, fun reply y hy => ?_⟩) ?_
  · have hhanded : (x.called (.channel number call)).handed = x.handed := rfl
    exact Attached.follows (r := reply) h hhanded hy
  · intro c x bytes h
    refine ⟨fun _ _ _ => nofun, fun reply y hy => ?_⟩
    have hhanded : (x.called (.memory (.store bytes))).handed = x.handed := rfl
    exact Attached.follows (r := reply) h hhanded hy

theorem steady_wired (line : Option Line) (stormed flagged : Prop) (wiring : Controller) :
    Steady (sparing line stormed) fun c x => Attached line flagged c x ∧ c.wiring = wiring :=
  steady_attached.and fun hc hwiring => hc.trans hwiring

theorem armable_wired (line : Option Line) (stormed flagged : Prop) (wiring : Controller) :
    ∀ t, Armable (sparing line stormed) (fun c x => Attached line flagged c x ∧ c.wiring = wiring) t :=
  fun t => (armable_attached t).and fun c => c.wiring = wiring

/-- Off the line, nothing that happens to it matters. -/
theorem Attached.offLine (hoff : c.OffLine) (hline : c.line = line) (hstormy : flagged → x.stormy line) :
    Attached line flagged c x :=
  ⟨hline, by simp [hoff.hooked, hoff.path], by simp [hoff.path], fun _ => hoff.prior, fun _ _ _ => .inr hoff.gate,
    hstormy⟩

theorem Attached.onChannel {prior : Option Handler} (hline : c.line = line) (hlined : line.isSome)
    (hstormy : flagged → x.stormy line) : Attached line flagged (c.onChannel prior) x :=
  ⟨hline, by simp [Controller.onChannel], fun _ => hlined, nofun, fun _ _ _ => .inl rfl, hstormy⟩

theorem spares_of_ne {call : Platform.Call} (h : ∀ irq, call ≠ .unmaskLine irq) : Spares line stormed call :=
  fun _ l _ => h l.irq

theorem spares_memory (call : Memory.Call) : Spares line stormed (.memory call) := spares_of_ne nofun

/-- What leaves a masked line masked leaves a degraded line degraded. -/
theorem lasts {p : Routine α} (hp : p.Only (Spares line stormed)) :
    Operation.Keeps (sparing line stormed) (fun _ y => flagged → y.stormy line) (liftM p : Operation α) :=
  .lift fun _ _ hs => hp.ensures
    (fun _ _ hcall hs => ⟨hcall, fun _ _ hy hflagged => stormy_follows hy (hs hflagged)⟩) hs

theorem lasts_writeOutput (f : Shadow → DigitalOutput) :
    Operation.Keeps (sparing line stormed) (fun _ y => flagged → y.stormy line)
      (Operation.shadowed fun s => s.writeOutput (f s)) :=
  .get_bind fun c y hy => Operation.Keeps.bind
    (lasts (.bind (.perform (by exact spares_of_ne nofun)) fun _ => .done)) (fun _ => .modify fun _ _ hy => hy) c y hy

theorem lasts_call {call : Platform.Call} (hcall : ∀ irq, call ≠ .unmaskLine irq) (hy : flagged → y.stormy line) :
    (sparing line stormed).permits y call ∧
      ∀ r z, (sparing line stormed).follows y call r z → flagged → z.stormy line :=
  ⟨spares_of_ne hcall, fun _ _ hfollows hflagged => stormy_follows hfollows (hy hflagged)⟩

theorem patient_stormy : Patient (sparing line stormed) fun _ y => flagged → y.stormy line where
  stance _ hy := hy
  plain hcall hy := lasts_call (by rintro irq rfl; exact hcall) hy

theorem leavable_stormy : Leavable (sparing line stormed) fun _ y => flagged → y.stormy line where
  stance _ hy := hy
  givesUp hcall hy := lasts_call (by rintro irq rfl; exact hcall) hy
  writeOutput _ := lasts_writeOutput _
  takePrior hy := hy
  unhook hy := hy
  toPort hy := hy

theorem ensures_disableDma (h : Attached line flagged c x) :
    Operation.Ensures (sparing line stormed) Operation.disableDma
      (fun _ c' y => c' = c.unhooked ∧ (x.stormy line → y.stormy line)) c x := by
  have hrecorded : Operation.Ensures recorded Operation.disableDma (fun _ c' _ => c' = c.unhooked) c [] :=
    Diskette.ensures_disableDma h.hookSound
  exact Operation.Ensures.yields (leavable_stormy.disableDma c x id) hrecorded

theorem lasts_hookLine (hcalm : ¬stormed) (l : Line) :
    Operation.Keeps (sparing line stormed) (fun _ y => flagged → y.stormy line) (Operation.hookLine l) := by
  have hcall : ∀ call : Platform.Call, Spares line stormed call := fun _ hs => absurd hs hcalm
  refine .bind (lasts (.perform (hcall _))) fun _ => ?_
  refine .bind (lasts_writeOutput fun s => { s.output with gate := true }) fun _ => ?_
  refine .bind (lasts (Platform.only_uninterrupted (hcall _) (fun _ => hcall _) (.perform (hcall _)))) fun _ => ?_
  refine .bind (.modify fun _ _ hy => hy) fun _ => ?_
  refine .bind (lasts (.perform (hcall _))) fun _ => ?_
  refine .bind (lasts (.perform (hcall _))) fun _ => ?_
  refine .bind (.modify fun _ _ hy => hy) fun _ => ?_
  exact .get_bind fun c y hy => lasts (.perform (hcall _)) c y hy

/-- The path is not taken in a storm. -/
theorem ensures_enableDma (h : Attached line stormed c x) :
    Operation.Ensures (sparing line stormed) Operation.enableDma.run (fun _ => Attached line stormed) c x := by
  refine Operation.Keeps.enableDma (K := Attached line stormed) ?_ c x h
  rintro c x l h hl -
  have hline : line = some l := h.line_eq.symm.trans hl
  refine (ensures_degraded spares_memory l).mono ?_
  rintro _ y ⟨rfl, hstirred⟩
  refine ⟨h.stirred hstirred, fun hlook _ => ?_⟩
  have hcalm : ¬stormed := by
    intro hs
    have hstormy := h.stormy hs
    rw [hline] at hstormy
    exact absurd hstormy (by simp [hlook])
  have hrecorded : Operation.Ensures recorded (Operation.hookLine l)
      (fun _ c' _ => ∃ prior, c' = c.onChannel prior) c [] := Diskette.ensures_hookLine l
  have hhook : Operation.Keeps (sparing line stormed) (fun _ z => y.stormy line → z.stormy line)
      (Operation.hookLine l) := lasts_hookLine hcalm l
  refine (Operation.Ensures.yields (hhook c y id) hrecorded).mono ?_
  rintro _ c' z ⟨⟨prior, rfl⟩, -⟩
  exact .onChannel h.line_eq (by rw [hline]; rfl) fun hs => absurd hs hcalm

end Exposure
end Diskette
