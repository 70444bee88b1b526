import Diskette.Proofs.Degradation

/-!
What is found at an address, and in what state. Probing makes the same calls wherever something answers, and tells
from their replies what it has found; whoever goes on to discover the controller resets it if it is not ready, and takes
the DMA path if it may.
-/
namespace Diskette

variable {placement : Placement} {base : UInt16} {gate : Bool} {c c' : Controller} {t : History Platform}

/-- The line and the channel are the ones proposed, unless they cannot be used. -/
structure Placement.Accepted (placement : Placement) (c : Controller) : Prop where
  base : c.base = placement.base
  irq : ∀ n, c.irq = some n ↔ placement.irq = some n ∧ 2 ≤ n ∧ n ≤ 15
  channel : ∀ n, c.channel = some n ↔ placement.channel = some n ∧ n ≤ 3

theorem Placement.accepted_of (hbase : c.base = placement.base) (hirq : c.irq = placement.irq.filter Placement.usableIrq)
    (hchannel : c.channel = placement.channel.filter Placement.usableChannel) : placement.Accepted c := by
  refine ⟨hbase, fun n => ?_, fun n => ?_⟩
  · rw [hirq, Option.filter_eq_some_iff]
    simp [Placement.usableIrq]
  · rw [hchannel, Option.filter_eq_some_iff]
    simp [Placement.usableChannel]

namespace Controller

/-- There is a line and a channel. -/
def wired (c : Controller) : Bool := c.irq.isSome && c.channel.isSome

/-- What was read in a look at the registers. -/
structure Look where
  statusA : UInt8
  statusB : UInt8
  digitalInput : UInt8
  mainStatus : UInt8
  digitalOutput : UInt8

namespace Look

/-- The calls of the look, with the one write there is. -/
def calls (base : UInt16) (gate : Bool) (look : Look) : History Platform :=
  [⟨.input (Port.statusA base), look.statusA⟩, ⟨.input (Port.statusB base), look.statusB⟩,
    ⟨.input (Port.digitalInput base), look.digitalInput⟩,
    ⟨.output (Port.digitalOutput base) (DigitalOutput.firmwareDefault gate).encode, ()⟩,
    ⟨.input (Port.mainStatus base), look.mainStatus⟩, ⟨.input (Port.digitalOutput base), look.digitalOutput⟩]

/-- The features are what the look tells. -/
structure Tells (gate : Bool) (look : Look) (features : Features) : Prop where
  ps2 : features.ps2 ↔ ¬(look.statusA = 0xFF ∧ look.statusB = 0xFF)
  atClass : features.atClass ↔ look.digitalInput ≠ 0xFF
  outputReadable : features.outputReadable ↔ look.digitalOutput = (DigitalOutput.firmwareDefault gate).encode

end Look

/-- The counters of a new line. -/
def opening : (irq : Option UInt8) → (line : Option Line) → History Platform
  | some irq, some line => [⟨.memory (.createLine irq), line⟩]
  | _, _ => []

theorem ensures_openLine (irq : Option UInt8) : (openLine irq).Ensures recorded
    (fun line t' => t' = t ++ opening irq line ∧ line.isSome = irq.isSome) t := by
  cases irq with
  | none => exact ⟨(List.append_nil t).symm, rfl⟩
  | some irq => exact Program.ensures_recorded.mpr fun line => ⟨rfl, rfl⟩

/-- The registers as they are written at first. -/
def written (placement : Placement) (c : Controller) : Shadow where
  base := placement.base
  output := .firmwareDefault c.wired

/-- Probing has made its calls, and told from the replies what is there. -/
structure Classified (placement : Placement) (c : Controller) (t : History Platform) : Prop where
  phase : c.phase = .ready
  calls : ∃ (look : Look) (irq : Option UInt8), t = look.calls placement.base c.wired ++ opening irq c.line ∧
    look.Tells c.wired c.features

theorem ensures_classify : (classify placement).Ensures recorded
    (fun c t' => c.shadow = written placement c ∧ ∃ u, t' = t ++ u ∧ Classified placement c u) t := by
  refine Program.ensures_recorded.mpr fun a => Program.ensures_recorded.mpr fun b => ?_
  refine Program.ensures_recorded.mpr fun input => Program.ensures_recorded.mpr fun _ => ?_
  refine Program.ensures_recorded.mpr fun main => Program.ensures_recorded.mpr fun readBack => ?_
  change (openLine _ >>= _).Ensures recorded _ _
  refine Program.ensures_bind.mpr ((ensures_openLine _).mono ?_)
  rintro line t' ⟨rfl, hline⟩
  generalize hirq : placement.irq.filter Placement.usableIrq = irq at hline
  have hwired : ∀ shadow channel features, wired { shadow, line, channel, features } = (irq.isSome && channel.isSome) := by
    intro shadow channel features
    simp [wired, Controller.irq, hline]
  have hboth : a &&& b = floating ↔ a = 0xFF ∧ b = 0xFF := UInt8.and_eq_neg_one_iff
  refine ⟨?_, (Look.mk a b input main readBack).calls placement.base _ ++ opening irq line, ?_, rfl, _, irq, rfl, ?_⟩
  · rw [written, hwired]
  · rw [hwired]
    simp [Look.calls]
  · rw [hwired]
    exact ⟨bne_iff_ne.trans (not_congr hboth), bne_iff_ne, beq_iff_eq⟩

/-- The reset line is pulled. -/
def AssertsReset (base : UInt16) : Platform.Call → Prop
  | .output port value => port = Port.digitalOutput base ∧ (DigitalOutput.decode value).resetAsserted
  | _ => False

/-- What was found stays as it is, out of reset and ready, whatever else is done. -/
structure Held (x : Controller) (t₀ : History Platform) (c : Controller) (t : History Platform) : Prop where
  base : c.base = x.base
  line : c.line = x.line
  channel : c.channel = x.channel
  features : c.features = x.features
  phase : c.phase = .ready
  outOfReset : c.shadow.output.resetAsserted = false
  calls : ∃ u, t = t₀ ++ u ∧ ∀ e ∈ u, ¬AssertsReset x.base e.call

variable {x : Controller} {t₀ : History Platform}

theorem Held.follows {call : Platform.Call} {r : Platform.Reply call} (h : Held x t₀ c t)
    (hcall : ¬AssertsReset x.base call) : Held x t₀ c (t ++ [⟨call, r⟩]) := by
  obtain ⟨u, rfl, hu⟩ := h.calls
  refine { h with calls := ⟨u ++ [⟨call, r⟩], List.append_assoc .., ?_⟩ }
  simpa [or_imp, forall_and] using ⟨hu, hcall⟩

theorem held_lift {α : Type} {p : Routine α} (hp : p.Only fun call => ¬AssertsReset x.base call) :
    Operation.Keeps recorded (Held x t₀) (liftM p : Operation α) := by
  refine .lift fun c t h => hp.ensures (fun t call hcall h => ⟨trivial, ?_⟩) h
  rintro r _ rfl
  exact h.follows hcall

theorem held_log (event : Log.Event) : Operation.Keeps recorded (Held x t₀) (Operation.log event) := by
  intro c t h
  rw [Operation.ensures_log]
  exact Program.ensures_recorded.mpr fun _ => h.follows nofun

theorem held_setGate : Operation.Keeps recorded (Held x t₀) (Operation.shadowed (·.setGate true)) := by
  intro c t h
  rw [Operation.ensures_shadowed]
  refine Program.ensures_recorded.mpr fun _ => ?_
  have hcall : ¬AssertsReset x.base (.output (Port.digitalOutput c.base) { c.shadow.output with gate := true }.encode) := by
    rintro ⟨-, hreset⟩
    rw [DigitalOutput.decode_encode, h.outOfReset] at hreset
    exact Bool.false_ne_true hreset
  exact { h.follows hcall with }

theorem held_hookLine (l : Line) : Operation.Keeps recorded (Held x t₀) (Operation.hookLine l) := by
  have hbind : (Platform.uninterrupted (Platform.bind l.irq (.counting l))).Only
      fun call => ¬AssertsReset x.base call :=
    Platform.only_uninterrupted nofun (by intro; nofun) (.perform nofun)
  refine .bind (held_lift (.perform nofun)) fun _ => .bind held_setGate fun _ => ?_
  refine .bind (held_lift hbind) fun prior => .bind (.modify fun c t h => { h with }) fun _ => ?_
  refine .bind (held_lift (.perform nofun)) fun _ => .bind (held_lift (.perform nofun)) fun _ => ?_
  exact .bind (.modify fun c t h => { h with }) fun _ => held_log _

theorem held_chooseChannel : Operation.Keeps recorded (Held x t₀) chooseChannel := by
  have henable : Operation.Keeps recorded (Held x t₀) Operation.enableDma.run := by
    refine .enableDma fun c t line h _ _ => Program.ensures_recorded.mpr fun stormy => ?_
    exact ⟨h.follows nofun, fun _ _ => held_hookLine line c _ (h.follows nofun)⟩
  refine .get_bind fun c t h => ?_
  rw [Operation.ensures_ite]
  split
  · refine Operation.Keeps.bind henable (fun r => ?_) c t h
    cases r with
    | ok => exact .pure
    | error cause => exact held_log _
  · exact h

/-- The controller is busy, or does not take a byte. -/
def Unready (status : MainStatus) : Prop := status.busy ∨ ¬status.canWrite

/-- A controller is reset if it is not ready, and nothing is done if it is. -/
structure Restarts (s : Shadow) (status : MainStatus) (t : History Platform) : Prop where
  reset : Unready status → ∃ u, ResetCalls s u ∧
    t = [⟨.log s.base (.foundUnready status), ()⟩, ⟨.log s.base .resetting, ()⟩] ++ u
  idle : ¬Unready status → t = []

theorem ensures_mainStatus : Operation.Ensures recorded Operation.mainStatus
    (fun status c t' => c = x ∧ t' = t ++ [⟨.input (Port.mainStatus x.base), status.bits⟩]) x t :=
  Program.ensures_recorded.mpr fun _ => ⟨rfl, rfl⟩

theorem ensures_resetUnready (hreset : x.shadow.output.resetAsserted = false) (hphase : x.phase = .ready) :
    Operation.Ensures recorded resetUnready (fun _ c t' => c.setting = x.setting ∧ c.phase = .ready ∧
      ∃ status resets, t' = t ++ ⟨.input (Port.mainStatus x.base), status⟩ :: resets ∧
        Restarts x.shadow ⟨status⟩ resets) x t := by
  refine Operation.ensures_bind.mpr (ensures_mainStatus.mono ?_)
  rintro status c _ ⟨rfl, rfl⟩
  rw [Operation.ensures_ite]
  split
  · rename_i hunready
    have hunready' : Unready status := by simpa [Unready] using hunready
    rw [Operation.ensures_bind, Operation.ensures_log]
    refine Program.ensures_recorded.mpr fun _ => ?_
    rw [Program.ensures_done]
    refine (ensures_reset hreset).mono ?_
    rintro _ c' _ ⟨hrestarted, hready, u, rfl, hu⟩
    refine ⟨hrestarted.setting, hready, status.bits, _, ?_, fun _ => ⟨u, hu, rfl⟩, fun h => absurd hunready' h⟩
    simp [Controller.base]
  · rename_i hready
    have hready' : ¬Unready status := by simpa [Unready] using hready
    exact ⟨rfl, hphase, status.bits, [], rfl, fun h => absurd h hready', fun _ => rfl⟩

theorem ensures_bringUp (hreset : x.shadow.output.resetAsserted = false) (hphase : x.phase = .ready) :
    Operation.Ensures recorded bringUp (fun _ c t' => ∃ status resets, Restarts x.shadow ⟨status⟩ resets ∧
      Held x (t ++ ⟨.input (Port.mainStatus x.base), status⟩ :: resets) c t') x t := by
  refine Operation.ensures_bind.mpr ((ensures_resetUnready hreset hphase).mono ?_)
  rintro - c t₁ ⟨hsetting, hready, status, resets, ht₁, hrestarts⟩
  have hshadow := shadow_of_setting hsetting
  have hline : c.setting.line = x.setting.line := by rw [hsetting]
  have hfeatures : c.setting.features = x.setting.features := by rw [hsetting]
  have hheld : Held x t₁ c t₁ := ⟨congrArg Shadow.base hshadow, hline, channel_of_setting hsetting, hfeatures, hready,
    hshadow ▸ hreset, [], by simp⟩
  subst ht₁
  refine Operation.ensures_bind.mpr ((held_chooseChannel c _ hheld).mono ?_)
  intro _ c₂ t₂ h₂
  rw [Operation.ensures_bind, Operation.ensures_get]
  exact (held_log _ c₂ t₂ h₂).mono fun _ _ _ h₃ => ⟨status, resets, hrestarts, h₃⟩

/-- Nothing is found just where the first look finds nothing, and there it is the only one. -/
def Opened (base : UInt16) (found : Option Controller) (t : History Platform)
    (P : Controller → History Platform → Prop) : Prop :=
  ∃ present u, t = ⟨.input (Port.mainStatus base), present⟩ :: u ∧ (found = none ↔ present = 0xFF) ∧
    (found = none → u = [⟨.log base .nothingPresent, ()⟩]) ∧ ∀ c ∈ found, P c u

theorem ensures_probe : (probe placement).Ensures recorded (fun found t => Opened placement.base found t
    fun c u => c.shadow = written placement c ∧ Classified placement c u) [] := by
  refine Program.ensures_recorded.mpr fun present => ?_
  change (if present = floating then _ else _ : Routine (Option Controller)).Ensures recorded _ _
  rw [Program.ensures_ite]
  split
  · rename_i hnothing
    refine Program.ensures_recorded.mpr fun _ => ?_
    exact ⟨present, _, rfl, iff_of_true rfl hnothing, fun _ => rfl, by simp⟩
  · rename_i hpresent
    refine Program.ensures_bind.mpr (ensures_classify.mono ?_)
    rintro c _ ⟨hshadow, u, rfl, hclassified⟩
    refine ⟨present, u, rfl, iff_of_false nofun hpresent, nofun, ?_⟩
    rintro _ ⟨⟩
    exact ⟨hshadow, hclassified⟩

/-- Discovery has made its calls: those of probing, one more look, a reset if that calls for it, and what it takes to get
to the DMA path. -/
structure Readied (placement : Placement) (c : Controller) (t : History Platform) : Prop where
  phase : c.phase = .ready
  calls : ∃ u status resets rest, t = u ++ ⟨.input (Port.mainStatus placement.base), status⟩ :: (resets ++ rest) ∧
    Classified placement c u ∧ Restarts (written placement c) ⟨status⟩ resets ∧
    ((∃ e ∈ t, AssertsReset placement.base e.call) ↔ Unready ⟨status⟩)

theorem Held.wired (h : Held x t₀ c t) : c.wired = x.wired := by
  simp [Controller.wired, Controller.irq, h.line, h.channel]

theorem Held.classified {u : History Platform} (h : Held x t₀ c t) (hu : Classified placement x u) :
    Classified placement c u := by
  obtain ⟨look, irq, rfl, htells⟩ := hu.calls
  refine ⟨h.phase, look, irq, ?_, ?_⟩
  · rw [h.wired, h.line]
  · rw [h.wired, h.features]
    exact htells

theorem Classified.not_assertsReset (h : Classified placement c t) : ∀ e ∈ t, ¬AssertsReset placement.base e.call := by
  obtain ⟨look, irq, rfl, -⟩ := h.calls
  intro e he
  rcases List.mem_append.mp he with he | he
  · simp only [Look.calls, List.mem_cons, List.not_mem_nil, or_false] at he
    rcases he with rfl | rfl | rfl | rfl | rfl | rfl <;> try exact not_false
    rintro ⟨-, hreset⟩
    rw [DigitalOutput.decode_encode] at hreset
    exact Bool.false_ne_true hreset
  · unfold opening at he
    split at he
    · obtain rfl := List.mem_singleton.mp he
      exact not_false
    · cases he

theorem assertsReset_of_resetCalls {s : Shadow} (h : ResetCalls s t) : ∃ e ∈ t, AssertsReset s.base e.call := by
  obtain ⟨settle, rest, rfl, -⟩ := h
  exact ⟨⟨.output (Port.digitalOutput s.base) { s.output with resetAsserted := true }.encode, ()⟩, by simp [pulse], rfl,
    by simp⟩

theorem Restarts.assertsReset_iff {s : Shadow} {status : MainStatus} (h : Restarts s status t) :
    (∃ e ∈ t, AssertsReset s.base e.call) ↔ Unready status := by
  constructor
  · rintro ⟨e, he, -⟩
    refine Classical.byContradiction fun hready => ?_
    rw [h.idle hready] at he
    cases he
  · intro hunready
    obtain ⟨u, hu, rfl⟩ := h.reset hunready
    obtain ⟨e, he, hreset⟩ := assertsReset_of_resetCalls hu
    exact ⟨e, List.mem_append_right _ he, hreset⟩

theorem ensures_discover : (discover placement).Ensures recorded (fun found t => Opened placement.base found t
    (Readied placement)) [] := by
  refine Program.ensures_bind.mpr (ensures_probe.mono ?_)
  rintro (_ | c) t ⟨present, u, rfl, hnone, hlogged, hfound⟩
  · exact ⟨present, u, rfl, hnone, hlogged, by simp⟩
  · obtain ⟨hshadow, hclassified⟩ := hfound c rfl
    have hreset : c.shadow.output.resetAsserted = false := by rw [hshadow]; rfl
    refine Program.ensures_bind.mpr (Program.Ensures.mono (ensures_bringUp hreset hclassified.phase) ?_)
    rintro ⟨_, c'⟩ t' ⟨status, resets, hrestarts, hheld⟩
    replace hheld : Held c _ c' t' := hheld
    obtain ⟨rest, rfl, hrest⟩ := hheld.calls
    have hbase : c.base = placement.base := congrArg Shadow.base hshadow
    have hwritten : written placement c' = c.shadow := by rw [written, hheld.wired, hshadow, written]
    refine ⟨present, u ++ ⟨.input (Port.mainStatus placement.base), status⟩ :: (resets ++ rest), by simp [hbase],
      iff_of_false nofun (mt hnone.mpr nofun), nofun, ?_⟩
    rintro _ ⟨⟩
    refine ⟨hheld.phase, u, status, resets, rest, rfl, hheld.classified hclassified, hwritten ▸ hrestarts, ?_⟩
    rw [← hrestarts.assertsReset_iff]
    change _ ↔ ∃ e ∈ resets, AssertsReset c.base e.call
    rw [hbase] at hrest ⊢
    constructor
    · rintro ⟨e, he, hasserts⟩
      simp only [List.mem_append, List.mem_cons] at he
      rcases he with he | rfl | he | he
      · exact absurd hasserts (hclassified.not_assertsReset e he)
      · exact hasserts.elim
      · exact ⟨e, he, hasserts⟩
      · exact absurd hasserts (hrest e he)
    · rintro ⟨e, he, hasserts⟩
      exact ⟨e, by simp [he], hasserts⟩

end Controller

namespace Exposure

open Controller

variable {x y : Exposure}

/-- A new line for a candidate. Nobody counts on it yet. -/
structure Fresh (irq : Option UInt8) (line : Option Line) (x : Exposure) : Prop where
  irq_eq : line.map (·.irq) = irq
  calm : ∀ l ∈ line, ¬(x.handed l.id ∨ x.degraded l.id)

theorem ensures_openLine_fresh (hx : x.Sound) (irq : Option UInt8) :
    (openLine irq).Ensures exposed (fun line y => Fresh irq line y) x := by
  have hirq : (openLine irq).Ensures exposed (fun line _ => line.map (·.irq) = irq) x := by
    cases irq with
    | none => exact rfl
    | some irq => exact Program.ensures_bind.mpr (ensures_memory (fun hs => hs.elim) fun _ _ => rfl)
  exact (hirq.and (ensures_openLine hx irq)).mono fun _ _ h => ⟨h.1, h.2⟩

theorem findable_fresh (placement : Placement) : Findable exposed placement Sound
    (Fresh (placement.irq.filter Placement.usableIrq)) where
  finds := (findable_exposed placement).finds
  opens hs := ensures_openLine_fresh hs _

/-- Nobody counts on the line as long as nothing is bound to it. -/
theorem steady_calm (x : Controller) : Steady exposed fun c y =>
    c.wiring = x.wiring ∧ ∀ l ∈ c.line, ¬(y.handed l.id ∨ y.degraded l.id) := by
  refine ⟨fun hc h => ⟨hc.trans h.1, by rw [line_of_wiring hc]; exact h.2⟩,
    fun {c s call} hcall h => ⟨False.elim, fun r y hy => ?_⟩⟩
  refine ⟨h.1, fun l hl hmay => h.2 l hl ?_⟩
  have hhanded := handed_of_ordinary (x := s) hcall
  rcases hmay with hlater | hdegraded
  · exact .inl (hhanded ▸ follows_handed hy hlater)
  · rcases follows_rises hy hdegraded with hdegraded | hlater
    · exact .inr hdegraded
    · exact .inl (hhanded ▸ hlater)

/-- Whatever comes of an operation when it is answered at will comes of it here. -/
theorem ensures_of_recorded {α : Type} {op : Operation α} {Q : α → Controller → Prop}
    (h : Operation.Ensures recorded op (fun a c' _ => Q a c') c t) :
    Operation.Ensures exposed op (fun a c' _ => Q a c') c x := by
  have htrue : Operation.Ensures exposed op (fun _ _ _ => True) c x :=
    (Program.only_true (StateT.run op c)).ensures (K := fun _ => True)
      (fun _ _ _ _ => ⟨False.elim, fun _ _ _ => trivial⟩) trivial
  exact (htrue.yields h).mono fun _ _ _ => And.left

/-- A line that is in order and a channel are all that the DMA path takes. -/
theorem ensures_enableDma_calm {l : Line} (hline : c.line = some l) (hchannel : c.channel.isSome) (hpath : c.path = .port)
    (hcalm : x.degraded l.id = false) :
    Attempt.Ensures exposed Operation.enableDma (fun _ c' _ => c'.path = .channel) (fun _ _ _ => False) c x := by
  have hsome : c.channel.isNone = false := by simpa using hchannel
  have hport : ¬c.path = .channel := by simp [hpath]
  simp only [Operation.enableDma, Attempt.ensures_bind, Attempt.ensures_get, Attempt.ensures_ite, hsome, hline]
  rw [if_neg Bool.false_ne_true, Attempt.ensures_lift]
  refine (ensures_degraded (fun _ => False.elim) l).mono ?_
  rintro _ y ⟨rfl, -⟩
  rw [hcalm, if_neg Bool.false_ne_true, if_neg hport, Attempt.ensures_operation]
  refine (ensures_of_recorded (Q := fun _ c' => c'.path = .channel) (t := []) ?_).mono fun _ _ _ h => h
  refine (Diskette.ensures_hookLine l).mono ?_
  rintro _ _ _ ⟨prior, rfl⟩
  exact rfl

/-- The DMA path is taken just if there is a line and a channel for it. -/
theorem ensures_chooseChannel (hpath : c.path = .port) (hcalm : ∀ l ∈ c.line, ¬(x.handed l.id ∨ x.degraded l.id)) :
    Operation.Ensures exposed chooseChannel (fun _ c' _ => c'.path = .channel ↔ c.wired) c x := by
  have hwired : c.wired = (c.line.isSome && c.channel.isSome) := by simp [wired, Controller.irq]
  rw [chooseChannel, Operation.ensures_bind, Operation.ensures_get, Operation.ensures_ite]
  split
  · rename_i hboth
    obtain ⟨hline, hchannel⟩ := Bool.and_eq_true_iff.mp hboth
    obtain ⟨l, hl⟩ := Option.isSome_iff_exists.mp hline
    have hquiet : x.degraded l.id = false := by simpa using fun hdegraded => hcalm l hl (.inr hdegraded)
    rw [Operation.ensures_bind, Attempt.ensures_run]
    refine (ensures_enableDma_calm hl hchannel hpath hquiet).mono ?_ fun _ _ _ => False.elim
    intro _ c' y hpath'
    exact iff_of_true hpath' (hwired.trans hboth)
  · rename_i hnot
    exact iff_of_false (by simp [hpath]) (by rw [hwired]; exact hnot)

theorem ensures_bringUp_calm (hnew : c.New placement) (hready : c.phase = .ready)
    (hcalm : ∀ l ∈ c.line, ¬(x.handed l.id ∨ x.degraded l.id)) :
    Operation.Ensures exposed bringUp (fun _ c' _ => (c'.path = .channel ↔ c.wired) ∧
      c'.base = c.base ∧ c'.line = c.line ∧ c'.channel = c.channel) c x := by
  have hsteady := steady_calm c
  have hpath : Operation.Ensures exposed bringUp (fun _ c' _ => c'.path = .channel ↔ c.wired) c x := by
    refine Operation.ensures_bind.mpr ((hsteady.calm.resetUnready hsteady.enduring.reset c x ⟨rfl, hcalm⟩).mono ?_)
    rintro - c₁ x₁ ⟨hwiring, hcalm₁⟩
    have hwired : c₁.wired = c.wired := by
      simp [wired, Controller.irq, line_of_wiring hwiring, channel_of_wiring hwiring]
    refine Operation.ensures_bind.mpr ((ensures_chooseChannel ((path_of_wiring hwiring).trans hnew.path) hcalm₁).mono ?_)
    rintro - c₂ x₂ hpath
    rw [Operation.ensures_bind, Operation.ensures_get, Operation.ensures_log]
    exact ⟨False.elim, fun _ _ _ => hwired ▸ hpath⟩
  refine (hpath.yields (Q := fun _ c' => c'.base = c.base ∧ c'.line = c.line ∧ c'.channel = c.channel) (t := []) ?_).mono
    fun _ _ _ h => ⟨h.2, h.1⟩
  refine (Controller.ensures_bringUp hnew.outOfReset hready).mono ?_
  rintro _ c' _ ⟨status, resets, -, hheld⟩
  exact ⟨hheld.base, hheld.line, hheld.channel⟩

theorem ensures_probe_accepted (hx : x.Sound) : (probe placement).Ensures exposed
    (fun found y => ∀ c ∈ found, placement.Accepted c ∧ c.New placement ∧ c.phase = .ready ∧
      ∀ l ∈ c.line, ¬(y.handed l.id ∨ y.degraded l.id)) x := by
  have hfresh := (findable_fresh placement).probe
    (G := fun c y => c.New placement ∧ Fresh (placement.irq.filter Placement.usableIrq) c.line y)
    (fun _ _ hnew hline => ⟨hnew, hline⟩) hx
  refine (hfresh.yields (Q := fun found => ∀ c ∈ found, c.phase = .ready) (t := []) ?_).mono ?_
  · refine Controller.ensures_probe.mono ?_
    rintro found t ⟨present, u, -, -, -, hfound⟩ c hc
    exact (hfound c hc).2.phase
  · rintro found y ⟨hready, -, hfound⟩ c hc
    obtain ⟨hnew, hline⟩ := hfound c hc
    exact ⟨placement.accepted_of hnew.base_eq hline.irq_eq hnew.channel_eq, hnew, hready c hc, hline.calm⟩

theorem ensures_discover_accepted (hx : x.Sound) : (discover placement).Ensures exposed
    (fun found _ => ∀ c ∈ found, placement.Accepted c ∧ (c.path = .channel ↔ c.wired)) x := by
  refine Program.ensures_bind.mpr ((ensures_probe_accepted hx).mono ?_)
  rintro (_ | c) y hfound
  · simp
  · obtain ⟨haccepted, hnew, hready, hcalm⟩ := hfound c rfl
    refine Program.ensures_bind.mpr (Program.Ensures.mono (ensures_bringUp_calm hnew hready hcalm) ?_)
    rintro ⟨_, c'⟩ z ⟨hpath, hbase, hline, hchannel⟩
    rintro _ ⟨⟩
    replace hline : c'.line = c.line := hline
    have hirq : c'.irq = c.irq := by rw [Controller.irq, hline, Controller.irq]
    refine ⟨⟨hbase.trans haccepted.base, hirq ▸ haccepted.irq, hchannel ▸ haccepted.channel⟩, ?_⟩
    rw [wired, hirq, hchannel]
    exact hpath

end Exposure

open Controller Exposure in
/-- Whatever answers at an address, probing and discovering either find nothing at the first look and go no further, or
end with a whole controller: on the line and the channel proposed, if they can be used, with the features that the
registers told, reset if it had to be, and on the DMA path just if it has both. -/
theorem discovery_whole (placement : Placement) {x : Exposure} (hx : x.Sound) :
    (∀ (moments : List (Moment Platform Exposure)) (found : Option Controller) (y : Exposure),
      Passage Exposure.follows (probe placement) x moments found y →
        Opened placement.base found (moments.map (·.exchange)) fun c t =>
          placement.Accepted c ∧ Classified placement c t) ∧
    (∀ (moments : List (Moment Platform Exposure)) (found : Option Controller) (y : Exposure),
      Passage Exposure.follows (discover placement) x moments found y →
        Opened placement.base found (moments.map (·.exchange)) fun c t =>
          placement.Accepted c ∧ Readied placement c t ∧ (c.path = .channel ↔ c.irq.isSome ∧ c.channel.isSome)) := by
  constructor
  · intro moments found y h
    obtain ⟨present, t, hcalls, hnone, hlogged, hfound⟩ := h.execution.recorded Controller.ensures_probe
    have haccepted := ((ensures_probe_accepted hx).passage h).2
    exact ⟨present, t, hcalls, hnone, hlogged, fun c hc => ⟨(haccepted c hc).1, (hfound c hc).2⟩⟩
  · intro moments found y h
    obtain ⟨present, t, hcalls, hnone, hlogged, hfound⟩ := h.execution.recorded Controller.ensures_discover
    have haccepted := ((ensures_discover_accepted hx).passage h).2
    refine ⟨present, t, hcalls, hnone, hlogged, fun c hc => ⟨(haccepted c hc).1, hfound c hc, ?_⟩⟩
    rw [(haccepted c hc).2]
    exact Bool.and_eq_true_iff

/-- The simulated machine is discovered on its line and channel, and comes to use them. -/
theorem discovery_whole_simulated : ∃ (moments : List (Moment Platform Exposure)) (c : Controller) (y : Exposure),
    ({} : Simulated).interrupts.exposure.Sound ∧
      Passage Exposure.follows (Controller.discover ⟨0x3F0, some 6, some 2⟩) ({} : Simulated).interrupts.exposure moments
        (some c) y ∧ c.irq = some 6 ∧ c.channel = some 2 ∧ c.path = .channel := by
  have hsound := Exposure.sound_fresh
  have hfound : ((Controller.discover ⟨0x3F0, some 6, some 2⟩).run Simulated.machine {}).1.isSome := by decide +kernel
  obtain ⟨moments, hpassage⟩ := (Exposure.keepsTo_exposed (φ := fun _ => True)).passage
    (Controller.discover ⟨0x3F0, some 6, some 2⟩) {}
  generalize (Controller.discover ⟨0x3F0, some 6, some 2⟩).run Simulated.machine {} = result at hfound hpassage
  obtain ⟨found, m⟩ := result
  obtain ⟨c, rfl⟩ := Option.isSome_iff_exists.mp hfound
  obtain ⟨_, _, -, -, -, hc⟩ := (discovery_whole ⟨0x3F0, some 6, some 2⟩ hsound).2 moments _ _ hpassage
  obtain ⟨haccepted, -, hpath⟩ := hc c rfl
  have hirq : c.irq = some 6 := (haccepted.irq 6).mpr ⟨rfl, by decide, by decide⟩
  have hchannel : c.channel = some 2 := (haccepted.channel 2).mpr ⟨rfl, by decide⟩
  exact ⟨moments, c, _, hsound, hpassage, hirq, hchannel, hpath.mpr (by simp [hirq, hchannel])⟩

end Diskette
