import Diskette.Machine.Clock
import Diskette.Proofs.WatchedLine
import Mathlib.Data.List.Induction
import Mathlib.Data.List.Infix

/-!
Storms on a line. Whatever is done beside it, its counters are what its fires and acknowledgements make of them: it is
degraded from the fire on that is one too many without an acknowledgement, and that fire alone masks it.
-/
namespace Diskette

namespace Line

variable {e : Event} {events stretch : List Event} {irq : UInt8} {c : FireCounter}

/-- So many fires have come without an acknowledgement between them that the line is given up. -/
def Stormy (events : List Event) : Prop :=
  ∃ stretch, stretch <:+: events ∧ .acknowledged ∉ stretch ∧ FireCounter.stormMark.toNat ≤ stretch.count .fired

/-- Fires since the last acknowledgement, of which there were so many before. -/
def Event.prolong (n : Nat) : Event → Nat
  | .fired => n + 1
  | .acknowledged => 0
  | _ => n

/-- Fires since the last acknowledgement. -/
def streak (events : List Event) : Nat := events.foldl Event.prolong 0

theorem streak_concat : streak (events ++ [e]) = e.prolong (streak events) := by
  rw [streak, List.foldl_append]
  rfl

/-- No stretch up to now without an acknowledgement has more fires than there have been since the last one. -/
theorem count_le_streak (h : stretch <:+ events) (hnone : .acknowledged ∉ stretch) :
    stretch.count .fired ≤ streak events := by
  -- What happened last is at the end, so the induction goes by the last event.
  induction events using List.reverseRecOn generalizing stretch with
  | nil =>
    obtain rfl := List.suffix_nil.mp h
    exact Nat.le_refl 0
  | append_singleton events e ih =>
    rw [streak_concat]
    rcases List.suffix_concat_iff.mp h with rfl | ⟨front, rfl, hfront⟩
    · exact Nat.zero_le _
    · rw [List.mem_append, not_or] at hnone
      have hle := ih hfront hnone.1
      cases e with
      | fired => simpa [Event.prolong] using hle
      | acknowledged => exact absurd (List.mem_singleton_self _) hnone.2
      | _ => simpa [Event.prolong] using hle

theorem exists_streak (events : List Event) :
    ∃ stretch, stretch <:+ events ∧ .acknowledged ∉ stretch ∧ stretch.count .fired = streak events := by
  induction events using List.reverseRecOn with
  | nil => exact ⟨[], List.suffix_rfl, List.not_mem_nil, rfl⟩
  | append_singleton events e ih =>
    obtain ⟨stretch, ⟨front, rfl⟩, hnone, hcount⟩ := ih
    rw [streak_concat]
    by_cases he : e = .acknowledged
    · subst he
      exact ⟨[], List.nil_suffix, List.not_mem_nil, rfl⟩
    · have hnone' : .acknowledged ∉ stretch ++ [e] := by simp [hnone, Ne.symm he]
      refine ⟨stretch ++ [e], ⟨front, by simp⟩, hnone', ?_⟩
      cases e <;> simp [Event.prolong, ← hcount] at he ⊢

/-- A storm is there already, or what comes last completes it. -/
theorem stormy_concat_iff :
    Stormy (events ++ [e]) ↔ Stormy events ∨ FireCounter.stormMark.toNat ≤ streak (events ++ [e]) := by
  constructor
  · rintro ⟨stretch, hinfix, hnone, hmany⟩
    rcases List.infix_concat_iff.mp hinfix with hlast | hbefore
    · exact .inr (Nat.le_trans hmany (count_le_streak hlast hnone))
    · exact .inl ⟨stretch, hbefore, hnone, hmany⟩
  · rintro (⟨stretch, hbefore, hnone, hmany⟩ | hmany)
    · exact ⟨stretch, hbefore.trans (List.prefix_append events [e]).isInfix, hnone, hmany⟩
    · obtain ⟨stretch, hsuffix, hnone, hcount⟩ := exists_streak (events ++ [e])
      exact ⟨stretch, hsuffix.isInfix, hnone, hcount ▸ hmany⟩

theorem streak_lt (h : ¬Stormy events) : streak events < FireCounter.stormMark.toNat := by
  by_contra hmany
  obtain ⟨stretch, hsuffix, hnone, hcount⟩ := exists_streak events
  exact h ⟨stretch, hsuffix.isInfix, hnone, by omega⟩

theorem prolong_le (h : e ≠ .fired) (n : Nat) : e.prolong n ≤ n := by
  cases e with
  | fired => exact absurd rfl h
  | acknowledged => exact Nat.zero_le n
  | _ => exact Nat.le_refl n

/-- Nothing but a fire completes a storm. -/
theorem stormy_append_iff {rest : List Event} (h : .fired ∉ rest) : Stormy (events ++ rest) ↔ Stormy events := by
  induction rest using List.reverseRecOn with
  | nil => rw [List.append_nil]
  | append_singleton rest e ih =>
    rw [List.mem_append, not_or] at h
    rw [← List.append_assoc, stormy_concat_iff, streak_concat, ih h.1]
    constructor
    · intro hstormy
      rcases hstormy with hbefore | hmany
      · exact hbefore
      · by_contra hcalm
        have hlt := streak_lt fun hrest => hcalm ((ih h.1).mp hrest)
        have hle := prolong_le (fun he => h.2 (List.mem_singleton.mpr he.symm)) (streak (events ++ rest))
        omega
    · exact .inl

theorem stormy_fired_iff :
    Stormy (events ++ [.fired]) ↔ Stormy events ∨ FireCounter.stormMark.toNat ≤ streak events + 1 := by
  rw [stormy_concat_iff, streak_concat]
  rfl

variable {masking : Bool}

theorem fired_not_mem_aftermath : .fired ∉ aftermath irq masking := by cases masking <;> simp [aftermath]

theorem streak_service : streak (events ++ [.fired] ++ aftermath irq masking) = streak events + 1 := by
  cases masking <;> simp [streak, aftermath, Event.prolong]

theorem stormy_service_iff : Stormy (events ++ [.fired] ++ aftermath irq masking) ↔ Stormy (events ++ [.fired]) :=
  stormy_append_iff fired_not_mem_aftermath

/-- The interrupt of a fire is ended first, and the fire is counted next. -/
def Served (irq : UInt8) (events : List Event) : Prop :=
  ∀ i, events[i]? = some .fired → events[i + 1]? = some (.ended irq) ∧ events[i + 2]? = some .counted

theorem served_nil : Served irq [] := nofun

theorem Served.append {rest : List Event} (h : Served irq events) (hrest : Served irq rest) :
    Served irq (events ++ rest) := by
  intro i hfired
  by_cases hi : i < events.length
  · rw [List.getElem?_append_left hi] at hfired
    obtain ⟨hended, hcounted⟩ := h i hfired
    have hbound : i + 2 < events.length := (List.getElem?_eq_some_iff.mp hcounted).1
    rw [List.getElem?_append_left (by omega), List.getElem?_append_left hbound]
    exact ⟨hended, hcounted⟩
  · rw [List.getElem?_append_right (by omega)] at hfired
    obtain ⟨hended, hcounted⟩ := hrest _ hfired
    rw [List.getElem?_append_right (by omega), List.getElem?_append_right (by omega)]
    rw [show i + 1 - events.length = i - events.length + 1 by omega,
      show i + 2 - events.length = i - events.length + 2 by omega]
    exact ⟨hended, hcounted⟩

theorem served_service : Served irq (.fired :: aftermath irq masking) := by
  intro i hfired
  cases masking <;> rcases i with _ | _ | _ | _ | i <;> simp [aftermath] at hfired ⊢

theorem served_acknowledged : Served irq [.acknowledged] := by
  intro i hfired
  cases i <;> simp at hfired

/-- The fire that completes the first storm masks the line, and nothing else masks any. -/
structure MaskedOnce (irq : UInt8) (events : List Event) : Prop where
  calm : ¬Stormy events → ∀ other, .masked other ∉ events
  stormy : Stormy events → ∃ before later, events = before ++ [.fired] ++ aftermath irq true ++ later ∧
    ¬Stormy before ∧ Stormy (before ++ [.fired]) ∧ ∀ other, .masked other ∉ before ++ later

/-- What neither fires nor masks changes nothing about it. -/
theorem MaskedOnce.append {rest : List Event} (h : MaskedOnce irq events)
    (hstormy : Stormy (events ++ rest) ↔ Stormy events) (hnone : ∀ other, .masked other ∉ rest) :
    MaskedOnce irq (events ++ rest) := by
  constructor
  · intro hcalm other
    have hcalm' : ¬Stormy events := fun hs => hcalm (hstormy.mpr hs)
    simp [h.calm hcalm' other, hnone other]
  · intro hs
    obtain ⟨before, later, heq, hbefore, hfirst, hmasked⟩ := h.stormy (hstormy.mp hs)
    refine ⟨before, later ++ rest, by simp [heq], hbefore, hfirst, ?_⟩
    intro other
    have hother := hmasked other
    simp only [List.mem_append, not_or] at hother ⊢
    exact ⟨hother.1, hother.2, hnone other⟩

theorem MaskedOnce.first (h : MaskedOnce irq events) (hcalm : ¬Stormy events) (hs : Stormy (events ++ [.fired])) :
    MaskedOnce irq (events ++ [.fired] ++ aftermath irq true) := by
  constructor
  · intro hnot
    exact absurd (stormy_service_iff.mpr hs) hnot
  · intro _
    refine ⟨events, [], by simp, hcalm, hs, ?_⟩
    intro other
    simpa using h.calm hcalm other

/-- The counters of a line and what has happened to it, each as the other has it. -/
structure Account (irq : UInt8) (c : FireCounter) (events : List Event) : Prop where
  fired : c.fired = UInt32.ofNat (events.count .fired)
  unacknowledged : ¬Stormy events → c.unacknowledged.toNat = streak events
  served : Served irq events
  ended : ∀ other, events.count (.ended other) = if other = irq then events.count .fired else 0
  counted : events.count .counted = events.count .fired
  degraded : c.degraded = true ↔ Stormy events
  masked : MaskedOnce irq events

theorem stormMark_toNat : FireCounter.stormMark.toNat = 65534 := rfl

theorem not_stormy_nil : ¬Stormy [] := by
  rintro ⟨stretch, hinfix, -, hmany⟩
  obtain rfl := List.eq_nil_of_infix_nil hinfix
  simp [stormMark_toNat] at hmany

theorem account_new : Account irq {} [] where
  fired := rfl
  unacknowledged := fun _ => rfl
  served := served_nil
  ended := by simp
  counted := rfl
  degraded := iff_of_false Bool.false_ne_true not_stormy_nil
  masked := ⟨fun _ _ => List.not_mem_nil, fun hs => absurd hs not_stormy_nil⟩

namespace Account

variable (h : Account irq c events)
include h

/-- The count of a healthy line has reached the mark once the fire completes a storm. -/
theorem mark_le_iff (hcalm : ¬Stormy events) :
    FireCounter.stormMark ≤ c.unacknowledged + 1 ↔ Stormy (events ++ [.fired]) := by
  have hstreak := h.unacknowledged hcalm
  have hlt := streak_lt hcalm
  have hmark := stormMark_toNat
  have hnext : (c.unacknowledged + 1).toNat = streak events + 1 := by
    rw [UInt32.toNat_add]
    simp
    omega
  rw [stormy_fired_iff, or_iff_right hcalm, UInt32.le_iff_toNat_le, hnext]

theorem degraded_fire : c.fire.2.degraded = true ↔ Stormy (events ++ [.fired]) := by
  by_cases hs : Stormy events
  · have hdegraded := h.degraded.mpr hs
    simp [FireCounter.fire, hdegraded, stormy_fired_iff, hs]
  · have hhealthy : c.degraded = false := Bool.eq_false_iff.mpr fun hd => hs (h.degraded.mp hd)
    simp [FireCounter.fire, hhealthy, h.mark_le_iff hs]

theorem masking_iff : c.fire.1 = true ↔ Stormy (events ++ [.fired]) ∧ ¬Stormy events := by
  by_cases hs : Stormy events
  · have hdegraded := h.degraded.mpr hs
    simp [FireCounter.fire, hdegraded, hs]
  · have hhealthy : c.degraded = false := Bool.eq_false_iff.mpr fun hd => hs (h.degraded.mp hd)
    simp [FireCounter.fire, hhealthy, h.mark_le_iff hs, hs]

theorem masked_fire : MaskedOnce irq (events ++ [.fired] ++ aftermath irq c.fire.1) := by
  cases hmasking : c.fire.1 with
  | true =>
    obtain ⟨hs, hcalm⟩ := h.masking_iff.mp hmasking
    exact h.masked.first hcalm hs
  | false =>
    have hsame : Stormy (events ++ [.fired]) → Stormy events := by
      intro hs
      by_contra hcalm
      have hmasks := h.masking_iff.mpr ⟨hs, hcalm⟩
      simp [hmasking] at hmasks
    -- No storm begins with this fire: there was one before, or there is none yet.
    rw [List.append_assoc]
    refine h.masked.append ?_ (by simp [aftermath])
    rw [← List.append_assoc, stormy_service_iff]
    exact ⟨hsame, fun hs => stormy_fired_iff.mpr (.inl hs)⟩

theorem unacknowledged_fire (hcalm : ¬Stormy (events ++ [.fired])) :
    c.fire.2.unacknowledged.toNat = streak events + 1 := by
  have hbefore : ¬Stormy events := fun hs => hcalm (stormy_fired_iff.mpr (.inl hs))
  have hstreak := h.unacknowledged hbefore
  have hlt := streak_lt hbefore
  have hmark := stormMark_toNat
  have hnext : c.fire.2.unacknowledged = c.unacknowledged + 1 := rfl
  rw [hnext, UInt32.toNat_add]
  simp
  omega

/-- A fire is accounted for by its handler. -/
theorem fire : Account irq c.fire.2 (events ++ [.fired] ++ aftermath irq c.fire.1) where
  fired := by
    have hnext : c.fire.2.fired = c.fired + 1 := rfl
    rw [hnext, h.fired, count_fired_service, UInt32.ofNat_add]
    rfl
  unacknowledged := by
    intro hcalm
    rw [stormy_service_iff] at hcalm
    rw [streak_service, h.unacknowledged_fire hcalm]
  served := by
    rw [List.append_assoc]
    exact h.served.append served_service
  ended := by
    intro other
    have hended := h.ended other
    by_cases hother : other = irq
    · subst hother
      cases c.fire.1 <;> simp [aftermath] at hended ⊢ <;> omega
    · have hirq : irq ≠ other := fun heq => hother heq.symm
      cases c.fire.1 <;> simp [aftermath, hother, hirq] at hended ⊢ <;> exact hended
  counted := by
    have hcounted := h.counted
    cases c.fire.1 <;> simp [aftermath] <;> omega
  degraded := by rw [stormy_service_iff, h.degraded_fire]
  masked := h.masked_fire

theorem acknowledge : Account irq c.acknowledge (events ++ [.acknowledged]) where
  fired := by simp [FireCounter.acknowledge, h.fired]
  unacknowledged := by
    intro _
    rw [streak_concat]
    rfl
  served := h.served.append served_acknowledged
  ended := by simpa using h.ended
  counted := by simpa using h.counted
  degraded := by
    rw [stormy_append_iff (by simp)]
    exact h.degraded
  masked := h.masked.append (stormy_append_iff (by simp)) (by simp)

end Account

end Line

/-- Acknowledgements of the line so far. -/
def Scene.acknowledgements {ω : Type} (s : Scene ω) : Nat := s.events.count .acknowledged

/-- No acknowledgement of a line. -/
def Platform.Call.Leaves (line : Line) (c : Platform.Call) : Prop := c ≠ .memory (.acknowledge line.id)

/-- Surroundings in which the acknowledgements of a line are counted. -/
def Line.tally (line : Line) : Surroundings Platform Nat where
  permits _ _ := True
  follows n c _ n' := n' = if c = .memory (.acknowledge line.id) then n + 1 else n

/-- Where the hardware is looked at, the line is not acknowledged. -/
def WatchedLine.Step.Leaves (line : Line) : WatchedLine.Step → Prop
  | .wait _ poll _ => poll.Only (Platform.Call.Leaves line)
  | _ => True

theorem Program.Only.tally {α : Type} {line : Line} {p : Routine α} (h : p.Only (Platform.Call.Leaves line)) (n : Nat) :
    p.Ensures line.tally (fun _ n' => n' = n) n := by
  refine h.ensures ?_ rfl
  intro n' c hleaves hn
  refine ⟨trivial, ?_⟩
  intro _ n'' hstep
  have hnone : n'' = n' := hstep.trans (if_neg hleaves)
  rw [hnone, hn]

namespace FiringLine

variable {ω : Type} {w : FiringLine ω} {s : Scene ω} {e : Expectation} {poll : Routine Bool}

theorem ensures_ask_tally (hpoll : poll.Only (Platform.Call.Leaves w.line)) (n : Nat) :
    (Expectation.ask poll).Ensures w.line.tally (fun r n' => n' = if r = some .interrupt then n + 1 else n) n := by
  rw [Expectation.ask, Program.ensures_bind]
  refine (hpoll.tally n).mono ?_
  intro answer n' hn
  cases answer <;> simpa using hn

theorem ensures_watch_tally (hpoll : poll.Only (Platform.Call.Leaves w.line)) (given last : Bool) (n : Nat) :
    (e.watch (w.passed given) poll last).Ensures w.line.tally
      (fun r n' => n' = if r = some .interrupt then n + 1 else n) n := by
  have hask := ensures_ask_tally hpoll n
  cases given with
  | false => cases e <;> exact hask
  | true =>
    cases e with
    | idle => exact hask
    | fired => exact hask
    | armed expected =>
      rw [passed, if_pos rfl, Expectation.watch_armed]
      refine ⟨trivial, ?_⟩
      rintro degraded _ rfl
      cases degraded with
      | true => exact hask
      | false =>
        refine ⟨trivial, ?_⟩
        rintro count _ rfl
        by_cases hcaught : caughtUp count expected
        · simp [hcaught, Program.ensures_call, Line.tally]
        · cases last with
          | false => simp [hcaught]
          | true => simpa [hcaught] using hask

/-- A wait acknowledges the line if it ends with its interrupt, and only then. -/
theorem ensures_wait_tally (hpoll : poll.Only (Platform.Call.Leaves w.line)) (given : Bool) (ms n : Nat) :
    (e.wait (w.passed given) poll ms).Ensures w.line.tally
      (fun r n' => n' = if r.1 = .interrupt then n + 1 else n) n := by
  induction ms generalizing n with
  | zero =>
    rw [Expectation.wait, Program.ensures_bind]
    refine (ensures_watch_tally hpoll given true n).mono ?_
    intro r n' hn
    cases r with
    | none => simpa using hn
    | some result => cases result <;> simpa using hn
  | succ ms ih =>
    rw [Expectation.wait, Program.ensures_bind]
    refine (ensures_watch_tally hpoll given false n).mono ?_
    intro r n' hn
    cases r with
    | none =>
      obtain rfl : n' = n := by simpa using hn
      refine ⟨trivial, ?_⟩
      rintro ⟨⟩ _ rfl
      exact ih _
    | some result => cases result <;> simpa using hn

theorem acknowledgements_fire : (w.fire s).acknowledgements = s.acknowledgements := by
  rw [fire_eq]
  cases (w.counter s).fire.1 <;> simp [Scene.acknowledgements, Line.aftermath]

theorem acknowledgements_fireTimes (count : Nat) : (w.fireTimes count s).acknowledgements = s.acknowledgements := by
  induction count generalizing s with
  | zero => rfl
  | succ count ih => exact ih.trans acknowledgements_fire

theorem keepsTo_tally (w : FiringLine ω) : w.machine.KeepsTo w.line.tally Scene.acknowledgements := by
  intro c s
  cases c with
  | delay ms => exact acknowledgements_fireTimes _
  | memory c =>
    by_cases hown : c = .acknowledge w.line.id
    · simp [hown, Line.tally, machine, step, remember, Scene.note, Scene.acknowledgements]
    · simp [hown, Line.tally, machine, step, remember, Scene.acknowledgements]
  | _ => rfl

/-- The foreground acknowledges the line by itself, in arming, and in a wait that its interrupt ends. -/
def acknowledges (w : FiringLine ω) (v : WatchedLine ω) : WatchedLine.Step → Bool
  | .acknowledge | .arm => true
  | .fire | .disarm => false
  | .wait given poll ms => ((v.expectation.wait (w.passed given) poll ms).run w.machine v.scene).1.1 = .interrupt

theorem acknowledgements_perform {v : WatchedLine ω} {step : WatchedLine.Step} (h : step.Leaves w.line) :
    (w.perform v step).scene.acknowledgements = v.scene.acknowledgements + (w.acknowledges v step).toNat := by
  cases step with
  | fire => exact acknowledgements_fire
  | disarm => rfl
  | acknowledge => exact (keepsTo_tally w (.memory (.acknowledge w.line.id)) v.scene).trans (if_pos rfl)
  | arm => exact (keepsTo_tally w (.memory (.acknowledge w.line.id)) v.scene).trans (if_pos rfl)
  | wait given poll ms =>
    refine ((ensures_wait_tally h given ms v.scene.acknowledgements).run (keepsTo_tally w)).trans ?_
    by_cases hinterrupt : ((v.expectation.wait (w.passed given) poll ms).run w.machine v.scene).1.1 = .interrupt
    · simp [acknowledges, hinterrupt]
    · simp [acknowledges, hinterrupt]

theorem keeps_account (irq : UInt8) : Keeps irq (Line.Account irq) where
  fire := fun _ _ h => h.fire
  acknowledge := fun _ _ h => h.acknowledge

/-- A line that is new on a platform. -/
def new (platform : Machine Platform ω) (fires : ω → Nat) (memory : Memory) (irq : UInt8) : FiringLine ω :=
  ⟨(memory.step (.createLine irq)).1, platform, fires⟩

end FiringLine

/-- Nothing has been done yet about a line, and nothing has come of it. -/
def WatchedLine.new {ω : Type} (world : ω) (memory : Memory) (irq : UInt8) : WatchedLine ω :=
  ⟨.idle, 0, ⟨world, (memory.step (.createLine irq)).2, []⟩⟩

theorem FiringLine.holds_new {ω : Type} (platform : Machine Platform ω) (fires : ω → Nat) (world : ω) (memory : Memory)
    (irq : UInt8) :
    (FiringLine.new platform fires memory irq).Holds (Line.Account irq) (WatchedLine.new world memory irq).scene := by
  have hcounter : (memory.step (.createLine irq)).2.counter memory.counters.size = {} := by
    simp [Memory.step, Memory.counter]
  constructor
  · simp [FiringLine.Enrolled, FiringLine.new, WatchedLine.new, Memory.step]
  · change Line.Account irq ((memory.step (.createLine irq)).2.counter memory.counters.size) []
    rw [hcounter]
    exact Line.account_new

/-- Whatever is done with a new line, and whenever it fires, its counters are what its fires and acknowledgements make
of them, and it is masked by the fire that completes the first storm. What acknowledges it besides is told. -/
theorem storm_exact {ω : Type} (platform : Machine Platform ω) (fires : ω → Nat) (world : ω) (memory : Memory)
    (irq : UInt8) (steps : List WatchedLine.Step) :
    let w := FiringLine.new platform fires memory irq
    let v := steps.foldl w.perform (WatchedLine.new world memory irq)
    Line.Account irq (w.counter v.scene) v.scene.events ∧
      ∀ step : WatchedLine.Step, step.Leaves w.line →
        (w.perform v step).scene.acknowledgements = v.scene.acknowledgements + (w.acknowledges v step).toNat := by
  intro w v
  constructor
  · have hstart := FiringLine.holds_new platform fires world memory irq
    exact (hstart.steps (FiringLine.keeps_account irq) steps).holds
  · intro step hleaves
    exact FiringLine.acknowledgements_perform hleaves

/-- Two acknowledgements: one in arming a line, and one in the wait that its fire ends. -/
theorem storm_exact_awaited :
    WatchedLine.Step.Leaves (FiringLine.new Clock.machine (fun _ => 0) {} 6).line (.wait true Clock.ask 0) ∧
      ((FiringLine.new Clock.machine (fun _ => 0) {} 6).perform
        ([.arm, .fire].foldl (FiringLine.new Clock.machine (fun _ => 0) {} 6).perform (WatchedLine.new {} {} 6))
        (.wait true Clock.ask 0)).scene.acknowledgements = 2 := by
  have hleaves :
      WatchedLine.Step.Leaves (FiringLine.new Clock.machine (fun _ => 0) {} 6).line (.wait true Clock.ask 0) :=
    ⟨nofun, fun _ _ _ => trivial⟩
  have hcounted := (storm_exact Clock.machine (fun _ => 0) {} {} 6 [.arm, .fire]).2 (.wait true Clock.ask 0) hleaves
  exact ⟨hleaves, hcounted.trans (by decide)⟩

end Diskette
