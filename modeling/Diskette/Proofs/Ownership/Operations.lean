import Diskette.Proofs.Conduct.Polling
import Diskette.Proofs.Ownership.Spurious
import Diskette.Proofs.Standing

/-!
What operations do to the interrupt line of their controller. Most leave it alone. The DMA path is taken and left
behind a mask, and the vector is swapped with interrupts suppressed.
-/
namespace Diskette

open LineState InterruptUnit Simulated

variable {α : Type} {l : Line} {line : Option Line} {used : Prop} {hooked : Bool} {prior : Option Handler}
  {c c' : Controller} {m m' : Simulated}
  {P : LineState → Prop}

/-- The gate that was last written to the output register at a base address is open. -/
def Simulated.Opened (m : Simulated) (base : UInt16) : Prop :=
  ∃ value, m.lastOutput base = some value ∧ (DigitalOutput.decode value).gate = true

/-- The handler of a controller is in the slot of its line just while it is installed. Once it was, the line is
masked when it is not. -/
structure Tended (used : Prop) (line : Option Line) (c : Controller) (m : Simulated) : Prop where
  line_eq : c.line = line
  lined : c.hooked → line.isSome
  cleared : c.hooked = false → c.prior = none
  free : c.hooked = false → ∀ l ∈ line,
    Free l (m.interrupts.lineState l) ∧ (used → (m.interrupts.lineState l).masked)
  served : c.hooked → ∀ l ∈ line,
    Served l (m.interrupts.lineState l) ∧ ∀ h ∈ c.prior, h.Other l

/-- A controller between two requests: the handler is installed just while the DMA path is taken, which takes a
line, a channel and the gate. -/
structure Owner (used : Prop) (line : Option Line) (c : Controller) (m : Simulated) : Prop extends
    Tended used line c m where
  hooked : c.hooked ↔ c.path = .channel
  routed : c.path = .channel → c.channel.isSome ∧ c.shadow.output.gate = true
  opened : c.path = .channel → m.Opened c.base

theorem Tended.follows {call : Platform.Call} {r : Platform.Reply call} (h : Tended used line c m)
    (hcall : Neutral call) (hfollows : guarded.follows m call r m') : Tended used line c m' :=
  ⟨h.line_eq, h.lined, h.cleared,
    fun hunhooked l hl => lasts_follows lasts_free.shut hcall hfollows (h.free hunhooked l hl),
    fun hhooked l hl => ⟨lasts_follows lasts_served hcall hfollows (h.served hhooked l hl).1,
      (h.served hhooked l hl).2⟩⟩

theorem Tended.of_eq (h : Tended used line c m) (hline : c'.line = c.line) (hhooked : c'.hooked = c.hooked)
    (hprior : c'.prior = c.prior) : Tended used line c' m :=
  ⟨hline.trans h.line_eq, by rw [hhooked]; exact h.lined, by rw [hhooked, hprior]; exact h.cleared,
    by rw [hhooked]; exact h.free, by rw [hhooked, hprior]; exact h.served⟩

theorem neutral_of_ordinary {call : Platform.Call} (h : Ordinary c call) : Neutral call := by
  cases call <;> trivial

theorem permits_of_neutral {call : Platform.Call} (h : Neutral call) : guarded.permits m call := by
  cases call <;> trivial

theorem opened_follows {call : Platform.Call} {r : Platform.Reply call} (hcall : Ordinary c call)
    (hgate : c.shadow.output.gate = true) (h : guarded.follows m call r m') (hm : m.Opened c.base) :
    m'.Opened c.base := by
  obtain ⟨value, hvalue, hopen⟩ := hm
  cases call with
  | output port byte =>
    unfold Opened
    rw [lastOutput_output (restless_of_guarded h)]
    split
    · rename_i hport
      exact ⟨byte, rfl, (hcall.2 hport).trans hgate⟩
    · exact ⟨value, hvalue, hopen⟩
  | _ => exact ⟨value, (lastOutput_follows (by exact nofun) (restless_of_guarded h) _).trans hvalue, hopen⟩

theorem steady_owner : Steady guarded (Owner used line) := by
  refine ⟨?_, ?_⟩
  · intro c c' m hc h
    have hchannel := Controller.channel_of_wiring hc
    have hhooked := Controller.hooked_of_wiring hc
    have hpath := Controller.path_of_wiring hc
    have hbase := Controller.base_of_wiring hc
    have hgate := Controller.gate_of_wiring hc
    have htended := h.toTended.of_eq (Controller.line_of_wiring hc) hhooked (Controller.prior_of_wiring hc)
    exact ⟨htended, by rw [hhooked, hpath]; exact h.hooked,
      by rw [hpath, hchannel, hgate]; exact h.routed, by rw [hpath, hbase]; exact h.opened⟩
  · intro c m call hcall h
    have hneutral := neutral_of_ordinary hcall
    refine ⟨permits_of_neutral hneutral, fun r m' hfollows => ?_⟩
    refine ⟨h.toTended.follows hneutral hfollows, h.hooked, h.routed, fun hpath => ?_⟩
    exact opened_follows hcall (h.routed hpath).2 hfollows (h.opened hpath)

theorem ensures_maskLine (hP : Lasts l P) (hm : P { m.interrupts.lineState l with masked := true }) :
    (Platform.maskLine l.irq).Ensures guarded
      (fun _ m' => P (m'.interrupts.lineState l) ∧ m'.writes = m.writes) m := by
  refine ⟨trivial, fun r m' hfollows => ⟨?_, writes_follows (by exact nofun) (restless_of_guarded hfollows)⟩⟩
  obtain ⟨m₁, hstep, hspurious⟩ := hfollows
  obtain rfl : m.unit (·.mask l.irq) = m₁ := congrArg Prod.snd hstep
  refine hP.stirs hspurious.reacts.interrupts ?_
  rw [← lineState_mask] at hm
  exact hm

theorem ensures_unmaskLine (hP : Lasts l P) (hm : P { m.interrupts.lineState l with masked := false }) :
    (Platform.unmaskLine l.irq).Ensures guarded
      (fun _ m' => P (m'.interrupts.lineState l) ∧ m'.writes = m.writes) m := by
  refine ⟨trivial, fun r m' hfollows => ⟨?_, writes_follows (by exact nofun) (restless_of_guarded hfollows)⟩⟩
  obtain ⟨m₁, hstep, hspurious⟩ := hfollows
  obtain rfl : (m.unit fun u => (u.unmask l.irq).deliver) = m₁ := congrArg Prod.snd hstep
  refine hP.stirs hspurious.reacts.interrupts (hP.stirs (u := m.interrupts.unmask l.irq) (.deliver .refl) ?_)
  rw [lineState_unmask]
  exact hm

/-- A neutral call that writes no register. -/
theorem ensures_neutral {call : Platform.Call} (hP : Lasts l P) (hcall : Neutral call)
    (hwrite : ∀ port value, call ≠ .output port value) (hm : P (m.interrupts.lineState l)) :
    (Program.call call Program.done : Routine _).Ensures guarded
      (fun _ m' => P (m'.interrupts.lineState l) ∧ m'.writes = m.writes) m :=
  ⟨permits_of_neutral hcall, fun _ _ hfollows =>
    ⟨lasts_follows hP hcall hfollows hm, writes_follows hwrite (restless_of_guarded hfollows)⟩⟩

theorem enabled_suppress {r : Platform.Reply .suppress} (h : guarded.follows m .suppress r m') :
    m'.interrupts.enabled = false := by
  obtain ⟨m₁, hstep, hspurious⟩ := h
  obtain rfl : m.unit (fun u => { u with enabled := false }) = m₁ := congrArg Prod.snd hstep
  exact hspurious.reacts.interrupts.steadfast.enabled

/-- The slot of a masked line is given another handler, with interrupts suppressed. -/
theorem ensures_swap (swap : Platform.Call) {slot : Option Handler} {Q : LineState → Prop}
    (hswap : ∀ m : Simulated, (m.step swap).2 = m.countAccess.unit (·.setVector l.irq slot))
    (hpermits : ∀ m : Simulated, m.interrupts.isMasked l.irq = true → m.interrupts.enabled = false →
      guarded.permits m swap)
    (hP : Lasts l P) (hQ : Lasts l Q) (hmasked : ∀ s, P s → s.masked = true)
    (hset : ∀ s, P s → Q (s.install l slot))
    (hm : P (m.interrupts.lineState l)) :
    (Platform.uninterrupted (Program.call swap Program.done)).Ensures guarded (fun r m' =>
      (∃ m₁ : Simulated, P (m₁.interrupts.lineState l) ∧ r = (m₁.step swap).1) ∧
        Q (m'.interrupts.lineState l) ∧ m'.writes = m.writes) m := by
  refine ⟨trivial, fun wasEnabled m₁ hsuppress => ?_⟩
  have hm₁ : P (m₁.interrupts.lineState l) := lasts_follows hP (by trivial) hsuppress hm
  have hwrites₁ : m₁.writes = m.writes := writes_follows (by exact nofun) (restless_of_guarded hsuppress)
  refine ⟨hpermits m₁ (hmasked _ hm₁) (enabled_suppress hsuppress), ?_⟩
  rintro r m₂ ⟨m', hstep, hspurious⟩
  have hset₁ : m' = m₁.countAccess.unit (·.setVector l.irq slot) := by rw [← hswap, hstep]
  have hm₂ : Q (m₂.interrupts.lineState l) := by
    refine hQ.stirs hspurious.reacts.interrupts ?_
    rw [hset₁]
    exact hset _ hm₁
  have hwrites₂ : m₂.writes = m.writes := by
    rw [hspurious.reacts.writes, hset₁]
    exact hwrites₁
  refine ⟨trivial, fun _ m₃ hresume => ?_⟩
  refine ⟨⟨m₁, hm₁, by rw [hstep]⟩, lasts_follows hQ (by trivial) hresume hm₂, ?_⟩
  exact (writes_follows (by exact nofun) (restless_of_guarded hresume)).trans hwrites₂

theorem ensures_bindVector (hm : Vacant l (m.interrupts.lineState l)) :
    (Platform.uninterrupted (Platform.bind l.irq (.counting l))).Ensures guarded (fun prior m' =>
      (∀ h ∈ prior, h.Other l) ∧ Installed l (m'.interrupts.lineState l) ∧ m'.writes = m.writes) m := by
  refine (ensures_swap (.bind l.irq (.counting l)) (fun _ => rfl) (fun _ => And.intro) lasts_vacant
    lasts_installed (fun s h => h.masked) (fun s h => h.install) hm).mono ?_
  rintro prior m' ⟨⟨m₁, hm₁, hprior⟩, hinstalled, hwrites⟩
  obtain rfl : prior = m₁.interrupts.vectors l.irq := hprior
  exact ⟨hm₁.toFree.slot, hinstalled, hwrites⟩

theorem ensures_restoreVector {prior : Option Handler} (hprior : ∀ h ∈ prior, h.Other l)
    (hm : Held l (m.interrupts.lineState l)) :
    (Platform.uninterrupted (Platform.restore l.irq prior)).Ensures guarded (fun _ m' =>
      (Free l (m'.interrupts.lineState l) ∧ (True → (m'.interrupts.lineState l).masked)) ∧
        m'.writes = m.writes) m := by
  have hfreed : Lasts l fun s => Free l s ∧ (True → s.masked) := lasts_free.shut
  refine (ensures_swap (.restore l.irq prior) (fun _ => rfl) (fun _ => And.intro) lasts_held
    hfreed (fun s h => h.masked)
    (fun s h => ⟨(h.install hprior).1, fun _ => (h.install hprior).2⟩) hm).mono ?_
  rintro _ m' ⟨-, hfree⟩
  exact hfree

theorem Simulated.Opened.of_writes {base : UInt16} (h : m.Opened base) (hwrites : m'.writes = m.writes) :
    m'.Opened base := by
  unfold Opened lastOutput
  rw [hwrites]
  exact h

/-- The output register is written, and the gate in it. -/
theorem ensures_writeOutput_line (hP : Lasts l P) (hm : P (m.interrupts.lineState l)) (s : Shadow)
    (output : DigitalOutput) : (s.writeOutput output).Ensures guarded (fun s' m' =>
      s' = { s with output } ∧ P (m'.interrupts.lineState l) ∧ (output.gate → m'.Opened s.base)) m := by
  refine ⟨trivial, fun r m' hfollows => ⟨rfl, lasts_follows hP (by trivial) hfollows hm, fun hgate => ?_⟩⟩
  refine ⟨output.encode, ?_, by rw [DigitalOutput.decode_encode]; exact hgate⟩
  rw [lastOutput_output (restless_of_guarded hfollows), if_pos rfl]

theorem ensures_hookLine_owner (hline : line = some l) (h : Owner used line c m) (hpath : c.path ≠ .channel)
    (hchannel : c.channel.isSome) (hcalm : (m.interrupts.lineState l).degraded = false) :
    Operation.Ensures guarded (Operation.hookLine l) (fun _ c' m' => Owner used line c' m') c m := by
  have hunhooked : c.hooked = false := Bool.eq_false_iff.mpr fun hhooked => hpath (h.hooked.mp hhooked)
  have hfree := (h.free hunhooked l hline).1
  unfold Operation.hookLine
  refine Operation.ensures_bind.mpr (Operation.ensures_lift.mpr
    ((ensures_maskLine lasts_vacant (hfree.mask hcalm)).mono ?_))
  rintro _ m₁ ⟨hm₁, -⟩
  refine Operation.ensures_bind.mpr (Operation.ensures_shadowed.mpr
    ((ensures_writeOutput_line lasts_vacant hm₁ c.shadow _).mono ?_))
  rintro shadow m₂ ⟨rfl, hm₂, hopened⟩
  have hopened₂ : m₂.Opened c.base := hopened rfl
  refine Operation.ensures_bind.mpr (Operation.ensures_lift.mpr ((ensures_bindVector hm₂).mono ?_))
  rintro prior m₃ ⟨hprior, hm₃, hwrites₃⟩
  rw [Operation.ensures_bind, Operation.ensures_modify]
  have hacknowledge : Program.Ensures guarded (Line.acknowledge l)
      (fun _ m' => Installed l (m'.interrupts.lineState l) ∧ m'.writes = m₃.writes) m₃ :=
    ensures_neutral lasts_installed (by trivial) (by exact nofun) hm₃
  refine Operation.ensures_bind.mpr (Operation.ensures_lift.mpr (hacknowledge.mono ?_))
  rintro _ m₄ ⟨hm₄, hwrites₄⟩
  refine Operation.ensures_bind.mpr (Operation.ensures_lift.mpr
    ((ensures_unmaskLine lasts_served hm₄.unmask).mono ?_))
  rintro _ m₅ ⟨hm₅, hwrites₅⟩
  rw [Operation.ensures_bind, Operation.ensures_modify, Operation.ensures_log]
  have hlog : Program.Ensures guarded (Platform.log c.base (.interruptDriven l.irq))
      (fun _ m' => Served l (m'.interrupts.lineState l) ∧ m'.writes = m₅.writes) m₅ :=
    ensures_neutral lasts_served (by trivial) (by exact nofun) hm₅
  refine hlog.mono ?_
  rintro _ m₆ ⟨hm₆, hwrites₆⟩
  have hwrites : m₆.writes = m₂.writes := hwrites₆.trans (hwrites₅.trans (hwrites₄.trans hwrites₃))
  refine ⟨⟨h.line_eq, fun _ => by simp [hline], nofun, nofun, ?_⟩, by simp, fun _ => ⟨hchannel, rfl⟩,
    fun _ => hopened₂.of_writes hwrites⟩
  rintro - l' hl'
  obtain rfl : l = l' := by simpa [hline] using hl'
  exact ⟨hm₆, hprior⟩

/-- The way out: as long as the handler is installed it is in the slot of the line, but the line is masked. -/
structure Leaving (used : Prop) (line : Option Line) (hooked : Bool) (c : Controller) (m : Simulated) : Prop where
  line_eq : c.line = line
  hooked_eq : c.hooked = hooked
  lined : hooked → line.isSome
  cleared : hooked = false → c.prior = none
  free : hooked = false → ∀ l ∈ line,
    Free l (m.interrupts.lineState l) ∧ (used → (m.interrupts.lineState l).masked)
  held : hooked → ∀ l ∈ line, Held l (m.interrupts.lineState l) ∧ ∀ h ∈ c.prior, h.Other l

theorem Leaving.unhooked (hline : c.line = line) (hhooked : c.hooked = false) (hprior : c.prior = none)
    (hfree : ∀ l ∈ line, Free l (m.interrupts.lineState l) ∧ (used → (m.interrupts.lineState l).masked)) :
    Leaving used line false c m := ⟨hline, hhooked, nofun, fun _ => hprior, fun _ => hfree, nofun⟩

theorem Leaving.follows {call : Platform.Call} {r : Platform.Reply call} (h : Leaving used line hooked c m)
    (hcall : Neutral call) (hfollows : guarded.follows m call r m') : Leaving used line hooked c m' :=
  ⟨h.line_eq, h.hooked_eq, h.lined, h.cleared,
    fun hunhooked l hl => lasts_follows lasts_free.shut hcall hfollows (h.free hunhooked l hl),
    fun hhooked l hl => ⟨lasts_follows lasts_held hcall hfollows (h.held hhooked l hl).1, (h.held hhooked l hl).2⟩⟩

theorem leaving_lift {p : Routine α} (hp : p.Only Neutral) :
    Operation.Keeps guarded (Leaving used line hooked) (liftM p : Operation α) :=
  .lift fun _ _ h => hp.ensures
    (fun _ _ hcall hs => ⟨permits_of_neutral hcall, fun _ _ hfollows => hs.follows hcall hfollows⟩) h

theorem leaving_modify {f : Controller → Controller} (hline : ∀ c, (f c).line = c.line)
    (hhooked : ∀ c, (f c).hooked = c.hooked) (hprior : ∀ c, (f c).prior = c.prior) :
    Operation.Keeps guarded (Leaving used line hooked) (modify f) :=
  .modify fun c _ h => ⟨(hline c).trans h.line_eq, (hhooked c).trans h.hooked_eq, h.lined,
    fun hunhooked => (hprior c).trans (h.cleared hunhooked), h.free, by rw [hprior c]; exact h.held⟩

theorem leaving_log (event : Log.Event) : Operation.Keeps guarded (Leaving used line hooked) (Operation.log event) :=
  .get_bind fun c m h => leaving_lift (.perform (by trivial)) c m h

theorem leaving_writeOutput (f : Shadow → DigitalOutput) :
    Operation.Keeps guarded (Leaving used line hooked) (Operation.shadowed fun s => s.writeOutput (f s)) := by
  refine .get_bind fun c m h => ?_
  have hwrite : (c.shadow.writeOutput (f c.shadow)).Only Neutral :=
    .bind (.perform (by trivial)) fun _ => .done
  exact Operation.Keeps.bind (leaving_lift hwrite)
    (fun _ => leaving_modify (by exact fun _ => rfl) (by exact fun _ => rfl) (by exact fun _ => rfl)) c m h

theorem ensures_maskIfHooked_line (h : Tended used line c m) :
    Operation.Ensures guarded Operation.maskIfHooked (fun _ => Leaving used line c.hooked) c m := by
  simp only [Operation.maskIfHooked, Operation.ensures_bind, Operation.ensures_get]
  split
  · rename_i l hl hhooked
    have hline : line = some l := h.line_eq.symm.trans hl
    obtain ⟨hserved, hprior⟩ := h.served hhooked l hline
    rw [Operation.ensures_lift]
    refine (ensures_maskLine lasts_held hserved.mask).mono ?_
    rintro _ m' ⟨hm', -⟩
    refine ⟨h.line_eq, rfl, h.lined, h.cleared, by simp [hhooked], ?_⟩
    intro _ l' hl'
    obtain rfl : l = l' := by simpa [hline] using hl'
    exact ⟨hm', hprior⟩
  · rename_i hnone
    refine ⟨h.line_eq, rfl, h.lined, h.cleared, h.free, fun hhooked l hl => ?_⟩
    exact absurd (hnone l (h.line_eq.trans hl) hhooked) id

/-- A line that was in use is masked from here on. -/
theorem ensures_unbind_line (h : Leaving used line hooked c m) : Operation.Ensures guarded Operation.unbind
    (fun _ => Leaving (used ∨ hooked) line false) c m := by
  have hhooked := h.hooked_eq
  simp only [Operation.unbind, Operation.ensures_bind, Operation.ensures_get]
  split
  · rename_i l hl hinstalled
    have hline : line = some l := h.line_eq.symm.trans hl
    obtain ⟨hheld, hprior⟩ := h.held (hhooked.symm.trans hinstalled) l hline
    rw [Operation.ensures_bind, Operation.ensures_takePrior, Operation.ensures_bind, Operation.ensures_lift]
    refine (ensures_restoreVector hprior hheld).mono ?_
    rintro _ m' ⟨⟨hfree, hmasked⟩, -⟩
    refine .unhooked h.line_eq rfl rfl fun l' hl' => ?_
    obtain rfl : l = l' := by simpa [hline] using hl'
    exact ⟨hfree, fun _ => hmasked trivial⟩
  · rename_i hnone
    have hunhooked : hooked = false :=
      hhooked.symm.trans (Controller.hooked_eq_false (by rw [hhooked, h.line_eq]; exact h.lined) hnone)
    refine .unhooked h.line_eq (hhooked.trans hunhooked) (h.cleared hunhooked) fun l hl =>
      ⟨(h.free hunhooked l hl).1, fun hused => ?_⟩
    refine (h.free hunhooked l hl).2 (hused.resolve_right ?_)
    simp [hunhooked]

/-- Off the DMA path, a line that is being left is left. -/
theorem Leaving.owner (h : Leaving used line false c m) (hpath : c.path = .port) : Owner used line c m :=
  ⟨⟨h.line_eq, by simp [h.hooked_eq], fun _ => h.cleared rfl, fun _ => h.free rfl, by simp [h.hooked_eq]⟩,
    by simp [h.hooked_eq, hpath], by simp [hpath], by simp [hpath]⟩

theorem ensures_disableDma_owner (h : Tended used line c m) :
    Operation.Ensures guarded Operation.disableDma
      (fun _ c' m' => c'.hooked = false ∧ Owner (used ∨ c.hooked) line c' m') c m := by
  refine Operation.ensures_bind.mpr ((ensures_maskIfHooked_line h).mono ?_)
  intro _ c₁ m₁ h₁
  have hclose : Operation.Keeps guarded (Leaving used line c.hooked) Operation.closeGate :=
    .get_bind fun c m h => by
      rw [Operation.ensures_ite]
      split
      · exact leaving_writeOutput (fun s => { s.output with gate := false }) c m h
      · exact h
  refine Operation.ensures_bind.mpr ((hclose c₁ m₁ h₁).mono ?_)
  intro _ c₂ m₂ h₂
  refine Operation.ensures_bind.mpr ((ensures_unbind_line h₂).mono ?_)
  intro _ c₃ m₃ h₃
  have hlog : Operation.Keeps guarded (Leaving (used ∨ c.hooked) line false) Operation.logPolled :=
    .get_bind fun c m h => by
      rw [Operation.ensures_ite]
      split
      · exact leaving_log _ c m h
      · exact h
  refine Operation.ensures_bind.mpr ((hlog c₃ m₃ h₃).mono ?_)
  intro _ c₄ m₄ h₄
  have hport : Leaving (used ∨ c.hooked) line false { c₄ with path := .port } m₄ :=
    ⟨h₄.line_eq, h₄.hooked_eq, h₄.lined, h₄.cleared, h₄.free, h₄.held⟩
  exact ⟨hport.hooked_eq, hport.owner rfl⟩

/-- Whatever was installed is gone after a release. -/
theorem ensures_release_owner (h : Tended used line c m) :
    Operation.Ensures guarded Operation.release
      (fun _ c' m' => c'.hooked = false ∧ Owner (used ∨ c.hooked) line c' m') c m := by
  have hwrite : Operation.Ensures guarded (Operation.shadowed fun s => s.writeOutput { drive := s.output.drive })
      (fun _ c' m' => c'.hooked = c.hooked ∧ Tended used line c' m') c m :=
    Operation.ensures_shadowed.mpr
      ⟨trivial, fun _ _ hfollows => ⟨rfl, (h.follows (by trivial) hfollows).of_eq rfl rfl rfl⟩⟩
  refine Operation.ensures_bind.mpr (hwrite.mono ?_)
  rintro _ c₁ m₁ ⟨hhooked, h₁⟩
  rw [← hhooked]
  refine Operation.ensures_bind.mpr ((ensures_maskIfHooked_line h₁).mono ?_)
  intro _ c₂ m₂ h₂
  refine Operation.ensures_bind.mpr ((ensures_unbind_line h₂).mono ?_)
  intro _ c₃ m₃ h₃
  have hchannel : Operation.Keeps guarded (Leaving (used ∨ c₁.hooked) line false) Operation.maskChannel := by
    intro c m h
    simp only [Operation.maskChannel, Operation.ensures_bind, Operation.ensures_get]
    split
    · exact leaving_lift (.perform (by trivial)) c m h
    · exact h
  refine Operation.ensures_bind.mpr ((hchannel c₃ m₃ h₃).mono ?_)
  intro _ c₄ m₄ h₄
  have hport : Leaving (used ∨ c₁.hooked) line false { c₄ with path := .port } m₄ :=
    ⟨h₄.line_eq, h₄.hooked_eq, h₄.lined, h₄.cleared, h₄.free, h₄.held⟩
  rw [Operation.ensures_bind, Operation.ensures_modify]
  refine Operation.ensures_log.mpr ⟨trivial, fun _ m' hfollows => ?_⟩
  have hend := hport.follows (by trivial) hfollows
  exact ⟨hend.hooked_eq, hend.owner rfl⟩

end Diskette
