import Diskette.Proofs.Conduct.Requests
import Diskette.Proofs.Custody.Frame

/-!
What a controller has in its keeping while it is in use: the handler that its own has displaced, and a machine that
is otherwise as it was before. The handler goes from the table to the controller and back, and is in one of them
always.
-/
namespace Diskette

open InterruptUnit Simulated

variable {α : Type} {m₀ m m' : Simulated} {line : Option Line} {l : Line} {channel : Option UInt8}
  {hooked hooked' : Bool} {prior prior' : Option Handler} {x c c' : Controller} {P : Bool → Prop} {used : Prop}

/-- A line that shares no bit of the mask with that of a controller. -/
def Apart (line : Option Line) (irq : UInt8) : Prop := ∀ l ∈ line, lineBit l.irq &&& lineBit irq = 0

namespace Simulated

/-- The vector table with the handler of a line in it, if that is hooked. -/
def table (m : Simulated) (line : Option Line) (hooked : Bool) : UInt8 → Option Handler :=
  match line, hooked with
  | some l, true => (m.interrupts.setVector l.irq (some (.counting l))).vectors
  | _, _ => m.interrupts.vectors

theorem table_false (m : Simulated) (line : Option Line) : m.table line false = m.interrupts.vectors := by
  cases line <;> rfl

/-- A machine is as it was before but for one line and one channel; what the table lacks is the displaced handler. -/
structure Lent (m₀ : Simulated) (line : Option Line) (channel : Option UInt8) (hooked : Bool)
    (prior : Option Handler) (m : Simulated) : Prop where
  vectors : m.interrupts.vectors = m₀.table line hooked
  displaced : hooked = true → ∀ l ∈ line, prior = m₀.interrupts.vectors l.irq
  degraded : ∀ id, (m₀.interrupts.memory.counter id).degraded = true →
    (m.interrupts.memory.counter id).degraded = true
  masks : (∀ l, ¬m₀.interrupts.Stormed m.interrupts l) → ∀ irq, Apart line irq →
    m.interrupts.isMasked irq = m₀.interrupts.isMasked irq
  channels : ∀ n, channel ≠ some n → m.channels n = m₀.channels n
  idle : (m₀.channels fdcChannel).masked = true

namespace Lent

theorem start (hidle : (m.channels fdcChannel).masked = true) : Lent m none none false none m :=
  ⟨rfl, nofun, fun _ => id, fun _ _ _ => rfl, fun _ _ => rfl, hidle⟩

/-- A line and a channel are handed over. -/
theorem entrust (h : Lent m₀ none none false none m) : Lent m₀ line channel false none m := by
  refine ⟨h.vectors.trans (m₀.table_false line).symm, nofun, h.degraded, fun hcalm irq _ => ?_, fun n _ => ?_, h.idle⟩
  · exact h.masks hcalm irq (by simp [Apart])
  · exact h.channels n (by simp)

theorem counts (h : Lent m₀ line channel hooked prior m) (hcounts : m.interrupts.Counts l) :
    m₀.interrupts.Counts l ∨ l ∈ line := by
  obtain ⟨irq, hslot⟩ := hcounts
  rw [h.vectors] at hslot
  unfold table at hslot
  split at hslot
  · rename_i own
    by_cases hirq : irq = own.irq
    · have hown : some (Handler.counting own) = some (.counting l) := (if_pos hirq).symm.trans hslot
      cases hown
      exact .inr rfl
    · exact .inl ⟨irq, (if_neg hirq).symm.trans hslot⟩
  · exact .inl ⟨irq, hslot⟩

/-- A handler that masks another line than its own has degraded one that was counted on before. -/
theorem settles (h : Lent m₀ line channel hooked prior m) (hsettles : Settles channel m m') :
    Lent m₀ line channel hooked prior m' := by
  have hunit := hsettles.interrupts
  refine ⟨hunit.vectors.trans h.vectors, h.displaced, fun id => hunit.degraded id ∘ h.degraded id,
    fun hcalm irq hapart => ?_, fun n hn => ?_, h.idle⟩
  · have hsame : m.interrupts.isMasked irq = m₀.interrupts.isMasked irq := by
      refine h.masks (fun l hl => ?_) irq hapart
      exact hcalm l ⟨hl.counts, hl.calm, hunit.degraded _ hl.degraded⟩
    rw [← hsame, Bool.eq_iff_iff]
    refine ⟨fun hmasked => ?_, hunit.masked irq⟩
    rcases hunit.stormed irq hmasked with hold | ⟨l, hstormed, hbit⟩
    · exact hold
    rcases h.counts hstormed.counts with hbefore | hown
    · have hcalm₀ : (m₀.interrupts.memory.counter l.id).degraded = false := by
        cases hl : (m₀.interrupts.memory.counter l.id).degraded with
        | false => rfl
        | true => exact absurd (h.degraded _ hl) (by simp [hstormed.calm])
      exact absurd ⟨hbefore, hcalm₀, hstormed.degraded⟩ (hcalm l)
    · exact absurd (hapart l hown) hbit
  · have hm := h.channels n hn
    refine (hsettles.channels n hn ?_).trans hm
    by_cases hfdc : n = fdcChannel
    · subst hfdc
      exact .inr (by rw [hm, h.idle])
    · exact .inl hfdc

/-- A change of the line and of its slot in the table. -/
theorem change (h : Lent m₀ line channel hooked prior m) (hvectors : m'.interrupts.vectors = m₀.table line hooked')
    (hdisplaced : hooked' = true → ∀ l ∈ line, prior' = m₀.interrupts.vectors l.irq)
    (hmasks : ∀ irq, Apart line irq → m'.interrupts.isMasked irq = m.interrupts.isMasked irq)
    (hmemory : m'.interrupts.memory = m.interrupts.memory) (hchannels : m'.channels = m.channels) :
    Lent m₀ line channel hooked' prior' m' := by
  refine ⟨hvectors, hdisplaced, by rw [hmemory]; exact h.degraded, fun hcalm irq hapart => ?_,
    by rw [hchannels]; exact h.channels, h.idle⟩
  refine (hmasks irq hapart).trans (h.masks (fun l hl => ?_) irq hapart)
  exact hcalm l ⟨hl.counts, hl.calm, by rw [hmemory]; exact hl.degraded⟩

theorem routine {p : Routine α} (h : Lent m₀ line channel hooked prior m) (hp : p.Only (Modest channel)) :
    p.Ensures restless (fun _ => Lent m₀ line channel hooked prior) m :=
  hp.ensures (fun _ _ hcall hm => ⟨trivial, fun _ _ hfollows => hm.settles (settles_follows hcall hfollows)⟩) h

theorem ensures_maskLine (h : Lent m₀ (some l) channel hooked prior m) : (Platform.maskLine l.irq).Ensures restless
    (fun _ m' => Lent m₀ (some l) channel hooked prior m' ∧ m'.interrupts.isMasked l.irq = true) m := by
  refine ⟨trivial, ?_⟩
  rintro r m' ⟨m₁, hstep, hreacts⟩
  obtain rfl : m.unit (·.mask l.irq) = m₁ := congrArg Prod.snd hstep
  have hmasked : Lent m₀ (some l) channel hooked prior (m.unit (·.mask l.irq)) :=
    h.change h.vectors h.displaced (fun irq hapart => isMasked_mask_other (hapart l rfl)) rfl rfl
  exact ⟨hmasked.settles hreacts.settles, hreacts.interrupts.settles.masked _ (isMasked_mask_self ..)⟩

theorem ensures_unmaskLine (h : Lent m₀ (some l) channel hooked prior m) :
    (Platform.unmaskLine l.irq).Ensures restless (fun _ => Lent m₀ (some l) channel hooked prior) m := by
  refine ⟨trivial, ?_⟩
  rintro r m' ⟨m₁, hstep, hreacts⟩
  obtain rfl : (m.unit fun u => (u.unmask l.irq).deliver) = m₁ := congrArg Prod.snd hstep
  have hopen : Lent m₀ (some l) channel hooked prior (m.unit (·.unmask l.irq)) :=
    h.change h.vectors h.displaced (fun irq hapart => isMasked_unmask_other (hapart l rfl)) rfl rfl
  have hdelivers : Settles channel (m.unit (·.unmask l.irq)) (m.unit fun u => (u.unmask l.irq).deliver) :=
    ⟨(Stirs.refl.deliver).settles, fun _ _ _ => rfl⟩
  exact hopen.settles (hdelivers.trans hreacts.settles)

/-- The handler that is displaced is the one from before. -/
theorem ensures_bind (h : Lent m₀ (some l) channel false prior m) :
    (Platform.uninterrupted (Platform.bind l.irq (.counting l))).Ensures restless
      (Lent m₀ (some l) channel true) m := by
  refine ⟨trivial, fun wasEnabled m₁ hsuppress => ⟨trivial, ?_⟩⟩
  have h₁ := h.settles (settles_follows (by trivial) hsuppress)
  rintro displaced m₂ ⟨m', hstep, hreacts⟩
  obtain rfl : m₁.interrupts.vectors l.irq = displaced := congrArg Prod.fst hstep
  obtain rfl : m₁.countAccess.unit (·.setVector l.irq (some (.counting l))) = m' := congrArg Prod.snd hstep
  have hvectors : m₁.interrupts.vectors = m₀.interrupts.vectors := h₁.vectors
  have hbound : Lent m₀ (some l) channel true (m₁.interrupts.vectors l.irq)
      (m₁.countAccess.unit (·.setVector l.irq (some (.counting l)))) := by
    refine h₁.change ?_ ?_ (fun _ _ => rfl) rfl rfl
    · simp only [unit, countAccess, table, setVector, hvectors]
    · rintro - _ ⟨⟩
      rw [hvectors]
  exact ⟨trivial, fun _ m₃ hresume =>
    (hbound.settles hreacts.settles).settles (settles_follows (by trivial) hresume)⟩

/-- The table is what it was when the handler is put back. -/
theorem ensures_restore (h : Lent m₀ (some l) channel true prior m)
    (hmasked : m.interrupts.isMasked l.irq = true) :
    (Platform.uninterrupted (Platform.restore l.irq prior)).Ensures restless
      (fun _ m' => Lent m₀ (some l) channel false none m' ∧ m'.interrupts.isMasked l.irq = true) m := by
  refine ⟨trivial, fun wasEnabled m₁ hsuppress => ⟨trivial, ?_⟩⟩
  have hsettles₁ : Settles channel m m₁ := settles_follows (by trivial) hsuppress
  have h₁ := h.settles hsettles₁
  rintro r m₂ ⟨m', hstep, hreacts⟩
  obtain rfl : m₁.countAccess.unit (·.setVector l.irq prior) = m' := congrArg Prod.snd hstep
  have hback : Lent m₀ (some l) channel false none (m₁.countAccess.unit (·.setVector l.irq prior)) := by
    refine h₁.change ?_ nofun (fun _ _ => rfl) rfl rfl
    funext irq
    simp only [unit, countAccess, table, setVector, h₁.vectors, h.displaced rfl l rfl]
    split
    · rename_i hirq
      rw [hirq]
    · rfl
  refine ⟨trivial, fun _ m₃ hresume => ?_⟩
  have hsettles₃ : Settles channel m₂ m₃ := settles_follows (by trivial) hresume
  refine ⟨(hback.settles hreacts.settles).settles hsettles₃, ?_⟩
  exact hsettles₃.interrupts.masked _ (hreacts.interrupts.settles.masked _ (hsettles₁.interrupts.masked _ hmasked))

end Lent
end Simulated

/-- A controller and what it has in its keeping. Whether its handler is installed can tell that its line is masked. -/
structure Custody (m₀ : Simulated) (x : Controller) (P : Bool → Prop) (c : Controller) (m : Simulated) :
    Prop where
  base_eq : c.base = x.base
  line_eq : c.line = x.line
  channel_eq : c.channel = x.channel
  usable : ∀ l ∈ c.line, l.irq ≤ 15
  routed : c.hooked → c.path = .channel
  lined : c.hooked → c.line.isSome
  lent : Lent m₀ c.line c.channel c.hooked c.prior m
  shut : P c.hooked → ∀ l ∈ c.line, m.interrupts.isMasked l.irq = true

namespace Custody

/-- A line that was in use, and is not any more. -/
def Rested (used : Prop) (hooked : Bool) : Prop := used ∧ hooked = false

/-- A line that was in use, or still is. -/
def Engaged (used : Prop) (hooked : Bool) : Prop := used ∨ hooked

theorem of_eq (h : Custody m₀ x P c m) (hbase : c'.base = c.base) (hline : c'.line = c.line)
    (hchannel : c'.channel = c.channel) (hhooked : c'.hooked = c.hooked) (hprior : c'.prior = c.prior)
    (hpath : c'.path = c.path) :
    Custody m₀ x P c' m := by
  refine ⟨hbase.trans h.base_eq, hline.trans h.line_eq, hchannel.trans h.channel_eq, ?_, ?_, ?_, ?_, ?_⟩
  · rw [hline]
    exact h.usable
  · rw [hhooked, hpath]
    exact h.routed
  · rw [hhooked, hline]
    exact h.lined
  · rw [hhooked, hprior, hline, hchannel]
    exact h.lent
  · rw [hhooked, hline]
    exact h.shut

theorem settles (h : Custody m₀ x P c m) (hsettles : Settles c.channel m m') : Custody m₀ x P c m' :=
  ⟨h.base_eq, h.line_eq, h.channel_eq, h.usable, h.routed, h.lined, h.lent.settles hsettles,
    fun hP l hl => hsettles.interrupts.masked _ (h.shut hP l hl)⟩

theorem self (h : Custody m₀ x P c m) : Custody m₀ c P c m :=
  ⟨rfl, rfl, rfl, h.usable, h.routed, h.lined, h.lent, h.shut⟩

/-- A line that is in use was in use. -/
theorem hookUsed (h : Custody m₀ x (Rested used) c m) : Custody m₀ x (Rested (used ∨ c.hooked)) c m := by
  refine ⟨h.base_eq, h.line_eq, h.channel_eq, h.usable, h.routed, h.lined, h.lent, ?_⟩
  rintro ⟨hused, hnone⟩
  exact h.shut ⟨hused.resolve_right (by simp [hnone]), hnone⟩

theorem mono {later : Prop} (h : Custody m₀ x (Rested used) c m) (hlater : later → used) :
    Custody m₀ x (Rested later) c m :=
  ⟨h.base_eq, h.line_eq, h.channel_eq, h.usable, h.routed, h.lined, h.lent, fun hP => h.shut (hP.imp_left hlater)⟩

end Custody

theorem modest_of_ordinary {call : Platform.Call} (h : Ordinary c call) : Modest c.channel call := by
  cases call with
  | channel number call => exact h.1
  | _ => trivial

theorem steady_custody : Steady restless (Custody m₀ x P) := by
  refine ⟨fun hc h => ?_, fun hcall h => ⟨trivial, fun r m' hfollows => ?_⟩⟩
  · exact h.of_eq (Controller.base_of_wiring hc) (Controller.line_of_wiring hc) (Controller.channel_of_wiring hc)
      (Controller.hooked_of_wiring hc) (Controller.prior_of_wiring hc) (Controller.path_of_wiring hc)
  · exact h.settles (settles_follows (modest_of_ordinary hcall) hfollows)

/-- Whatever is written to the output register. -/
theorem custody_writeOutput (f : Shadow → DigitalOutput) :
    Operation.Keeps restless (Custody m₀ x P) (Operation.shadowed fun s => s.writeOutput (f s)) := by
  intro c m h
  rw [Operation.ensures_shadowed]
  refine ⟨trivial, fun r m' hfollows => ?_⟩
  exact (h.settles (settles_follows (by trivial) hfollows)).of_eq rfl rfl rfl rfl rfl rfl

theorem armable_custody : ∀ t, Armable restless (Custody m₀ x P) t := by
  refine .of_stored (fun {c m number call} hchannel h => ⟨trivial, fun r m' hfollows => ?_⟩) ?_
  · have hmodest : Modest c.channel (.channel number call) := hchannel
    exact h.settles (settles_follows hmodest hfollows)
  · exact fun h => ⟨trivial, fun r m' hfollows => h.settles (settles_follows (by trivial) hfollows)⟩

theorem ensures_hookLine_custody (h : Custody m₀ x (Custody.Rested used) c m) (hl : c.line = some l)
    (hpath : c.path ≠ .channel) :
    Operation.Ensures restless (Operation.hookLine l) (fun _ => Custody m₀ x (Custody.Rested used)) c m := by
  have hunhooked : c.hooked = false := Bool.eq_false_iff.mpr fun hhooked => hpath (h.routed hhooked)
  have hlent : Lent m₀ (some l) c.channel false c.prior m := hl ▸ hunhooked ▸ h.lent
  have hline : some l = x.line := hl.symm.trans h.line_eq
  unfold Operation.hookLine
  refine Operation.ensures_bind.mpr (Operation.ensures_lift.mpr (hlent.ensures_maskLine.mono ?_))
  rintro _ m₁ ⟨h₁, -⟩
  have hgate : Operation.Ensures restless (Operation.shadowed (·.setGate true))
      (fun _ c' m' => c' = { c with shadow := { c.shadow with output := { c.shadow.output with gate := true } } } ∧
        Lent m₀ (some l) c.channel false c.prior m') c m₁ :=
    Operation.ensures_shadowed.mpr
      ⟨trivial, fun _ _ hfollows => ⟨rfl, h₁.settles (settles_follows (by trivial) hfollows)⟩⟩
  refine Operation.ensures_bind.mpr (hgate.mono ?_)
  rintro _ _ m₂ ⟨rfl, h₂⟩
  refine Operation.ensures_bind.mpr (Operation.ensures_lift.mpr (h₂.ensures_bind.mono fun prior m₃ h₃ => ?_))
  rw [Operation.ensures_bind, Operation.ensures_modify]
  have hacknowledge : (Line.acknowledge l).Only (Modest c.channel) := .perform (by trivial)
  refine Operation.ensures_bind.mpr (Operation.ensures_lift.mpr ((h₃.routine hacknowledge).mono fun _ m₄ h₄ => ?_))
  refine Operation.ensures_bind.mpr (Operation.ensures_lift.mpr (h₄.ensures_unmaskLine.mono fun _ m₅ h₅ => ?_))
  rw [Operation.ensures_bind, Operation.ensures_modify]
  refine steady_custody.calm.log _ _ m₅ ⟨h.base_eq, h.line_eq, h.channel_eq, h.usable, fun _ => rfl, ?_, ?_, ?_⟩
  · simp [hl]
  · exact hl ▸ h₅
  · simp [Custody.Rested]

theorem keeps_enableDma_custody :
    Operation.Keeps restless (Custody m₀ x (Custody.Rested used)) Operation.enableDma.run := by
  refine .enableDma fun c m l h hl _ => ?_
  exact (steady_custody.calm.routine (.perform (by trivial)) h).mono fun _ m' h' =>
    ⟨h', fun _ hpath => ensures_hookLine_custody h' hl hpath⟩

/-- A line that was in use is masked from here on. -/
theorem ensures_maskIfHooked_custody (h : Custody m₀ x (Custody.Rested used) c m) :
    Operation.Ensures restless Operation.maskIfHooked (fun _ => Custody m₀ x (Custody.Engaged used)) c m := by
  simp only [Operation.maskIfHooked, Operation.ensures_bind, Operation.ensures_get]
  split
  · rename_i l hl _
    rw [Operation.ensures_lift]
    refine (Lent.ensures_maskLine (hl ▸ h.lent)).mono ?_
    rintro _ m' ⟨hlent, hmasked⟩
    refine ⟨h.base_eq, h.line_eq, h.channel_eq, h.usable, h.routed, h.lined, hl ▸ hlent, fun _ l' hl' => ?_⟩
    obtain rfl : l = l' := Option.some.inj (hl.symm.trans hl')
    exact hmasked
  · rename_i hnone
    refine ⟨h.base_eq, h.line_eq, h.channel_eq, h.usable, h.routed, h.lined, h.lent, fun hengaged l hl => ?_⟩
    have hunhooked := Controller.hooked_eq_false h.lined hnone
    have hused : used := hengaged.resolve_right (by simp [hunhooked])
    exact h.shut ⟨hused, hunhooked⟩ l hl

theorem ensures_unbind_custody (h : Custody m₀ x (Custody.Engaged used) c m) : Operation.Ensures restless
    Operation.unbind (fun _ c' m' => Custody m₀ x (Custody.Rested used) c' m' ∧ c'.hooked = false) c m := by
  simp only [Operation.unbind, Operation.ensures_bind, Operation.ensures_get]
  split
  · rename_i l hl hhooked
    have hlent : Lent m₀ (some l) c.channel true c.prior m := hl ▸ hhooked ▸ h.lent
    have hmasked : m.interrupts.isMasked l.irq = true := h.shut (.inr hhooked) l hl
    rw [Operation.ensures_bind, Operation.ensures_takePrior, Operation.ensures_bind, Operation.ensures_lift]
    refine (hlent.ensures_restore hmasked).mono ?_
    rintro _ m' ⟨hlent', hmasked'⟩
    refine ⟨⟨h.base_eq, h.line_eq, h.channel_eq, h.usable, by simp, by simp, hl ▸ hlent', fun _ l' hl' => ?_⟩, rfl⟩
    obtain rfl : l = l' := Option.some.inj (hl.symm.trans hl')
    exact hmasked'
  · rename_i hnone
    have hunhooked := Controller.hooked_eq_false h.lined hnone
    refine ⟨⟨h.base_eq, h.line_eq, h.channel_eq, h.usable, h.routed, h.lined, h.lent, fun hrested => ?_⟩, hunhooked⟩
    exact h.shut (.inl hrested.1)

theorem steady_unhooked : Steady restless fun c m => Custody m₀ x P c m ∧ c.hooked = false :=
  steady_custody.and fun hc hnone => (Controller.hooked_of_wiring hc).trans hnone

theorem Custody.toPort (h : Custody m₀ x P c m) (hnone : c.hooked = false) : Custody m₀ x P { c with path := .port } m :=
  ⟨h.base_eq, h.line_eq, h.channel_eq, h.usable, by simp [hnone], h.lined, h.lent, h.shut⟩

theorem keeps_disableDma_custody :
    Operation.Keeps restless (Custody m₀ x (Custody.Rested used)) Operation.disableDma := by
  intro c m h
  refine Operation.ensures_bind.mpr ((ensures_maskIfHooked_custody h).mono fun _ c₁ m₁ h₁ => ?_)
  have hclose : Operation.Keeps restless (Custody m₀ x (Custody.Engaged used)) Operation.closeGate :=
    .get_bind fun c m h => by
      rw [Operation.ensures_ite]
      split
      · exact custody_writeOutput (fun s => { s.output with gate := false }) c m h
      · exact h
  refine Operation.ensures_bind.mpr ((hclose c₁ m₁ h₁).mono fun _ c₂ m₂ h₂ => ?_)
  refine Operation.ensures_bind.mpr ((ensures_unbind_custody h₂).mono fun _ c₃ m₃ h₃ => ?_)
  have hlog : Operation.Keeps restless (fun c m => Custody m₀ x (Custody.Rested used) c m ∧ c.hooked = false)
      Operation.logPolled :=
    .get_bind fun c m h => by
      rw [Operation.ensures_ite]
      split
      · exact steady_unhooked.calm.log _ c m h
      · exact h
  refine Operation.ensures_bind.mpr ((hlog c₃ m₃ h₃).mono ?_)
  rintro _ c₄ m₄ ⟨h₄, hnone⟩
  exact h₄.toPort hnone

theorem ensures_maskChannel_shut (c : Controller) (m : Simulated) : Operation.Ensures restless Operation.maskChannel
    (fun _ c' m' => ∀ n ∈ c'.channel, (m'.channels n).masked = true) c m := by
  simp only [Operation.maskChannel, Operation.ensures_bind, Operation.ensures_get]
  split
  · rename_i n hn
    refine Operation.ensures_lift.mpr ⟨trivial, ?_⟩
    rintro r m' ⟨m₁, hstep, hreacts⟩ n' hn'
    obtain rfl : n = n' := Option.some.inj (hn.symm.trans hn')
    obtain rfl : (m.channelStep n .mask).2 = m₁ := congrArg Prod.snd hstep
    have hmasked : ((m.channelStep n .mask).2.channels n).masked = true := by
      simp [channelStep, setChannel, countAccess, ChannelState.step]
    rw [hreacts.channels n (.inr hmasked), hmasked]
  · rename_i hnone
    intro n hn
    exact absurd (hnone.symm.trans hn) (by simp)

/-- After a release the driver's handler is gone, and the channel is masked. -/
theorem ensures_release_custody (h : Custody m₀ x (Custody.Rested used) c m) : Operation.Ensures restless
    Operation.release (fun _ c' m' => Custody m₀ x (Custody.Rested used) c' m' ∧ c'.hooked = false ∧
      ∀ n ∈ c'.channel, (m'.channels n).masked = true) c m := by
  have hwrite := custody_writeOutput (fun s => { drive := s.output.drive }) c m h
  refine Operation.ensures_bind.mpr (hwrite.mono fun _ c₁ m₁ h₁ => ?_)
  refine Operation.ensures_bind.mpr ((ensures_maskIfHooked_custody h₁).mono fun _ c₂ m₂ h₂ => ?_)
  refine Operation.ensures_bind.mpr ((ensures_unbind_custody h₂).mono fun _ c₃ m₃ h₃ => ?_)
  have hmask := (steady_unhooked.calm.maskChannel c₃ m₃ h₃).and (ensures_maskChannel_shut c₃ m₃)
  refine Operation.ensures_bind.mpr (hmask.mono ?_)
  rintro _ c₄ m₄ ⟨⟨h₄, hnone⟩, hmasked⟩
  rw [Operation.ensures_bind, Operation.ensures_modify]
  refine Operation.ensures_log.mpr ⟨trivial, fun _ m₅ hfollows => ?_⟩
  have hsettles : ∀ channel, Settles channel m₄ m₅ := fun _ => settles_follows (by trivial) hfollows
  refine ⟨(h₄.toPort hnone).settles (hsettles _), hnone, fun n hn => ?_⟩
  rw [(hsettles none).channels n (by simp) (.inr (hmasked n hn)), hmasked n hn]

theorem obliging_custody :
    Obliging restless (Custody m₀ x (Custody.Rested used)) fun _ => Custody m₀ x (Custody.Rested used) :=
  steady_custody.obliging armable_custody (fun _ h => h.of_eq rfl rfl rfl rfl rfl rfl) keeps_enableDma_custody
    keeps_disableDma_custody

end Diskette
