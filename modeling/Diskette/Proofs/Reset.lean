import Diskette.Proofs.Calls
import Diskette.Proofs.Execution
import Diskette.Proofs.Upkeep

/-!
What a reset does to the controller and to its registers. The setting of a controller, which is all
of it but what commands report and where they are, comes out of a reset as it went in.
-/
namespace Diskette

/-- A controller but for its reports and for where it is in a command. -/
def Controller.setting (c : Controller) : Controller :=
  { c with
    status := {}, cylinder := 0, version := none, phase := .ready, expectation := .idle
    specified := none, stormReported := false }

/-- Writes no register but the data port, and lets no channel go. -/
def Aside (base : UInt16) : Platform.Call → Prop
  | .output port _ => port = Port.data base
  | .channel _ c => c ≠ .unmask
  | _ => True

variable {base : UInt16} {α : Type} {x c : Controller} {t t₀ : History Platform}

theorem Controller.shadow_of_setting (h : c.setting = x.setting) : c.shadow = x.shadow := by
  have hshadow : c.setting.shadow = x.setting.shadow := by rw [h]
  exact hshadow

theorem Controller.channel_of_setting (h : c.setting = x.setting) : c.channel = x.channel := by
  have hchannel : c.setting.channel = x.setting.channel := by rw [h]
  exact hchannel

theorem Controller.path_of_setting (h : c.setting = x.setting) : c.path = x.path := by
  have hpath : c.setting.path = x.setting.path := by rw [h]
  exact hpath

theorem aside_of_looks {call : Platform.Call} (h : Fifo.Looks base call) : Aside base call := by
  cases call <;> trivial

theorem aside_of_talks {call : Platform.Call} (h : Fifo.Talks base call) : Aside base call := by
  cases call <;> first | exact h | trivial

/-- The setting stays, and so do the registers behind it. -/
structure Stays (x : Controller) (t₀ : History Platform) (c : Controller) (t : History Platform) :
    Prop where
  setting_eq : c.setting = x
  aside : ∃ u, t = t₀ ++ u ∧ ∀ e ∈ u, Aside x.base e.call

theorem Stays.base_eq (h : Stays x t₀ c t) : c.base = x.base := by
  rw [← h.setting_eq]
  rfl

theorem Stays.start (h : c.setting = x) : Stays x t c t := ⟨h, [], by simp⟩

theorem Stays.routine {p : Routine α} (hp : p.Only (Aside c.base)) (h : Stays x t₀ c t) :
    p.Ensures recorded (fun _ => Stays x t₀ c) t := by
  rw [h.base_eq] at hp
  obtain ⟨hsetting, u, rfl, hu⟩ := h
  apply (hp.recorded _).mono
  rintro a t' ⟨v, rfl, hv⟩
  refine ⟨hsetting, u ++ v, List.append_assoc .., ?_⟩
  simpa [or_imp, forall_and] using ⟨hu, hv⟩

theorem Stays.of_setting {c' : Controller} (h : Stays x t₀ c t) (hc : c'.setting = c.setting) :
    Stays x t₀ c' t := ⟨hc.trans h.setting_eq, h.aside⟩

abbrev OperationStays (op : Operation α) : Prop :=
  ∀ x t₀, Operation.Keeps recorded (Stays x t₀) op

theorem stays_modify {f : Controller → Controller} (hf : ∀ c, (f c).setting = c.setting) :
    OperationStays (modify f) := fun _ _ => .modify fun c _ h => h.of_setting (hf c)

theorem stays_setPhase (phase : Phase) : OperationStays (Operation.setPhase phase) :=
  stays_modify (by exact fun _ => rfl)

theorem stays_log (event : Log.Event) : OperationStays (Operation.log event) := by
  intro x t₀ c t h
  rw [Operation.ensures_log]
  exact h.routine (.perform (by trivial))

theorem stays_mainStatus : OperationStays Operation.mainStatus := by
  intro x t₀ c t h
  simp only [Operation.mainStatus, Operation.ensures_bind, Operation.ensures_get,
    Operation.ensures_lift]
  exact h.routine (Fifo.only_readStatus.mono fun _ => aside_of_looks)

theorem stays_awaitRestart : OperationStays Operation.awaitRestart := by
  intro x t₀ c t h
  simp only [Operation.awaitRestart, Operation.ensures_bind, Operation.ensures_get,
    Operation.ensures_lift]
  refine (h.routine ((Fifo.only_awaitStatus _ _).mono fun _ => aside_of_looks)).mono ?_
  intro ready t' h'
  rw [Operation.ensures_ite]
  split
  · exact h'
  · exact stays_log _ x t₀ c t' h'

theorem stays_drain (count : Nat) : OperationStays (Operation.drain count) := by
  intro x t₀
  induction count with
  | zero => exact .pure
  | succ count ih =>
    intro c t h
    simp only [Operation.drain, Operation.ensures_bind, Operation.ensures_get,
      Operation.ensures_lift]
    refine (h.routine ((Fifo.only_transact _ _).mono fun _ => aside_of_talks)).mono ?_
    rintro (cause | result) t' h'
    · exact h'
    · dsimp only
      rw [Operation.ensures_ite]
      split
      · exact h'
      · exact Operation.Keeps.bind (stays_log _ x t₀) (fun _ => ih) c t' h'

theorem stays_acknowledgeLine : OperationStays Operation.acknowledgeLine := by
  intro x t₀ c t h
  simp only [Operation.acknowledgeLine, Operation.ensures_bind, Operation.ensures_get]
  split
  · rw [Operation.ensures_lift]
    exact h.routine (.perform (by trivial))
  · exact h

/-- What is told about the path is what the controller knows afterwards. -/
theorem stays_specify (path : DataPath) (h : Stays x t₀ c t) :
    Attempt.Ensures recorded (Operation.specify path)
      (fun _ c' t' => Stays x t₀ c' t' ∧ c' = { c with specified := some path })
      (fun _ c' t' => Stays x t₀ c' t' ∧ c' = c) c t := by
  simp only [Operation.specify, Attempt.ensures_bind, Attempt.ensures_get, Attempt.ensures_of]
  refine (h.routine ((Fifo.only_transact _ _).mono fun _ => aside_of_talks)).mono ?_
  rintro (cause | result) t' h'
  · exact ⟨h', trivial⟩
  · exact ⟨h'.of_setting rfl, rfl⟩

theorem stays_respecify (h : Stays x t₀ c t) :
    Operation.Ensures recorded Operation.respecify
      (fun _ c' t' => Stays x t₀ c' t' ∧ c'.expectation = c.expectation ∧
        (c'.specified = c.specified ∨ c'.specified = some c'.path)) c t := by
  simp only [Operation.respecify, Operation.ensures_bind, Operation.ensures_get,
    Attempt.ensures_run]
  refine (stays_specify c.path h).mono ?_ ?_
  · rintro - c' t' ⟨h', rfl⟩
    exact ⟨h', rfl, .inr rfl⟩
  · rintro - c' t' ⟨h', rfl⟩
    rw [Operation.ensures_log]
    exact (h'.routine (.perform (by trivial))).mono fun _ _ h'' => ⟨h'', rfl, .inl rfl⟩

/-- The reset line is held for its time. -/
def pulse (s : Shadow) : History Platform :=
  [⟨.output (Port.digitalOutput s.base) { s.output with resetAsserted := true }.encode, ()⟩,
    ⟨.delay Operation.resetHold, ()⟩, ⟨.output (Port.digitalOutput s.base) s.output.encode, ()⟩]

/-- Both registers are written as they were last. -/
def rewrite (s : Shadow) : History Platform :=
  [⟨.output (Port.digitalOutput s.base) s.output.encode, ()⟩,
    ⟨.output (Port.configControl s.base) s.rate.encode, ()⟩]

/-- What is called in a reset: the pulse, and at some time after it the registers written again. -/
def ResetCalls (s : Shadow) (t : History Platform) : Prop :=
  ∃ settle rest, t = pulse s ++ settle ++ rewrite s ++ rest ∧
    ∀ e ∈ settle ++ rest, Aside s.base e.call

theorem ensures_pulseReset (hc : c.shadow.output.resetAsserted = false) :
    Operation.Ensures recorded Operation.pulseReset
      (fun _ c' t' => c' = c ∧ t' = t ++ pulse c.shadow) c t := by
  obtain ⟨⟨base, ⟨motors, gate, resetAsserted, drive⟩, rate⟩⟩ := c
  obtain rfl : resetAsserted = false := hc
  simp [Operation.pulseReset, Shadow.setReset, Shadow.writeOutput, Platform.output, Platform.delay,
    Program.ensures_recorded, pulse]

theorem ensures_resync (s : Shadow) :
    s.resync.Ensures recorded (fun _ t' => t' = t ++ rewrite s) t := by
  simp [Shadow.resync, Platform.output, Program.ensures_recorded, rewrite]

/-- The state of the driver after a reset, whatever the controller has done meanwhile. -/
structure Restarted (c c' : Controller) : Prop where
  setting : c'.setting = c.setting
  expectation : c'.expectation = .idle
  specified : c'.specified = none ∨ c'.specified = some c'.path

theorem ensures_reset (hc : c.shadow.output.resetAsserted = false) :
    Operation.Ensures recorded Operation.reset (fun _ c' t' => Restarted c c' ∧ c'.phase = .ready ∧
      ∃ u, t' = t ++ [⟨.log c.base .resetting, ()⟩] ++ u ∧ ResetCalls c.shadow u) c t := by
  unfold Operation.reset
  rw [Operation.ensures_bind, Operation.ensures_log]
  refine Program.ensures_recorded.mpr fun _ => ?_
  rw [Program.ensures_done]
  refine Operation.ensures_bind.mpr ((ensures_pulseReset hc).mono ?_)
  rintro - c₁ t₁ ⟨rfl, rfl⟩
  refine Operation.ensures_bind.mpr ((stays_awaitRestart _ _ c₁ _ (.start rfl)).mono ?_)
  intro _ c₂ t₂ h₂
  refine Operation.ensures_bind.mpr ((stays_mainStatus _ _ c₂ t₂ h₂).mono fun _ c₃ t₃ h₃ => ?_)
  rw [Operation.ensures_bind, Operation.ensures_get, Operation.ensures_bind,
    Operation.ensures_lift]
  apply (ensures_resync c₃.shadow).mono
  rintro - t₄ rfl
  obtain ⟨hsetting, settle, rfl, hsettle⟩ := h₃
  have hshadow : c₃.shadow = c₁.shadow := Controller.shadow_of_setting hsetting
  rw [hshadow]
  refine Operation.ensures_bind.mpr ((stays_drain 4 _ _ c₃ _ (.start hsetting)).mono ?_)
  intro _ c₅ t₅ h₅
  refine Operation.ensures_bind.mpr ((stays_acknowledgeLine _ _ c₅ t₅ h₅).mono ?_)
  intro _ c₆ t₆ h₆
  rw [Operation.ensures_bind, Operation.ensures_modify]
  have h₆' : Stays c₁.setting _ { c₆ with expectation := .idle, specified := none } t₆ :=
    h₆.of_setting rfl
  refine Operation.ensures_bind.mpr ((stays_respecify h₆').mono ?_)
  rintro - c₇ t₇ ⟨⟨hsetting', rest, rfl, hrest⟩, hexpectation, hspecified⟩
  refine ⟨⟨hsetting', hexpectation, hspecified⟩, rfl, ?_⟩
  refine ⟨pulse c₁.shadow ++ settle ++ rewrite c₁.shadow ++ rest, by simp, settle, rest, rfl, ?_⟩
  intro e he
  rcases List.mem_append.mp he with he | he
  · exact hsettle e he
  · exact hrest e he

end Diskette
