import Diskette.Machine.Clock
import Diskette.Proofs.Rest.Disarming
import Diskette.Proofs.WatchedLine.Looks
import Mathlib.Data.Nat.Find

/-!
How a wait ends, and when. While the line is healthy and armed its fires since then decide, and the hardware is asked
but once, when the time is up; where there is no such line, the hardware is asked once a millisecond. A line may be
given up between two looks, and then the rest of the wait goes by the hardware.
-/
namespace Diskette

/-- A line that was armed when there had been so many fires, and has been left to its handler since. -/
structure FireCounter.Counting (expected : UInt32) (armedAt : Nat) (c : FireCounter) (events : List Line.Event) :
    Prop where
  since : armedAt ≤ events.count .fired
  fired : c.fired = expected - 1 + UInt32.ofNat (events.count .fired - armedAt)
  unacknowledged : c.degraded = false → c.unacknowledged.toNat = events.count .fired - armedAt
  few : c.degraded = false → events.count .fired - armedAt < FireCounter.stormMark.toNat

/-- So it is with the line wherever it is armed. -/
def Expectation.Poised (e : Expectation) (armedAt : Nat) (c : FireCounter) (events : List Line.Event) : Prop :=
  ∀ expected, e = .armed expected → c.Counting expected armedAt events

namespace FireCounter.Counting

variable {expected : UInt32} {armedAt : Nat} {c : FireCounter} {events : List Line.Event}

/-- While it is healthy there are too few of its fires for the comparison to wrap round. -/
theorem caughtUp_iff (h : c.Counting expected armedAt events) (hhealthy : c.degraded = false) :
    caughtUp c.fired expected = true ↔ armedAt < events.count .fired := by
  have hsince := h.since
  have hfew := h.few hhealthy
  have hmark : stormMark.toNat = 65534 := rfl
  have hfired := h.fired
  generalize hk : events.count .fired - armedAt = k at hfew hfired
  have hdiff : c.fired - expected = UInt32.ofNat k - 1 := by grind
  have hcaught : UInt32.ofNat k - 1 < 0x7FFFFFFF ↔ 0 < k := by
    rw [UInt32.lt_iff_toNat_lt, UInt32.toNat_sub]
    simp
    omega
  rw [caughtUp, decide_eq_true_iff, hdiff, hcaught]
  omega

/-- A healthy line is one fire further. -/
theorem fire_healthy (h : c.Counting expected armedAt events) (hhealthy : c.fire.2.degraded = false) :
    c.fire.2.unacknowledged.toNat = events.count .fired - armedAt + 1 ∧
      events.count .fired - armedAt + 1 < stormMark.toNat := by
  have hboth : c.degraded = false ∧ c.unacknowledged + 1 < stormMark := by
    simpa [FireCounter.fire, UInt32.not_le] using hhealthy
  have hnow := h.unacknowledged hboth.1
  have hfew := h.few hboth.1
  have hlt := UInt32.lt_iff_toNat_lt.mp hboth.2
  have hmark : stormMark.toNat = 65534 := rfl
  have hnext : c.fire.2.unacknowledged = c.unacknowledged + 1 := rfl
  rw [UInt32.toNat_add] at hlt
  rw [hnext, UInt32.toNat_add]
  simp at hlt ⊢
  omega

theorem fire {irq : UInt8} (h : c.Counting expected armedAt events) :
    c.fire.2.Counting expected armedAt (events ++ [.fired] ++ Line.aftermath irq c.fire.1) := by
  have hsince := h.since
  have hmore : events.count Line.Event.fired + 1 - armedAt = events.count .fired - armedAt + 1 := by omega
  constructor
  · rw [Line.count_fired_service]
    omega
  · have hnext : c.fire.2.fired = c.fired + 1 := rfl
    rw [Line.count_fired_service, hmore, UInt32.ofNat_add, hnext, h.fired, UInt32.add_assoc]
    rfl
  · intro hhealthy
    rw [Line.count_fired_service, hmore, (h.fire_healthy hhealthy).1]
  · intro hhealthy
    rw [Line.count_fired_service, hmore]
    exact (h.fire_healthy hhealthy).2

/-- To arm a line starts the count anew. -/
theorem arm : (c.acknowledge).Counting (c.fired + 1) (events.count .fired) (events ++ [.acknowledged]) := by
  have hcount : (events ++ [Line.Event.acknowledged]).count .fired = events.count .fired := by simp
  constructor
  · exact Nat.le_of_eq hcount.symm
  · rw [hcount, Nat.sub_self]
    grind [FireCounter.acknowledge]
  · intro _
    rw [hcount, Nat.sub_self]
    rfl
  · intro _
    rw [hcount, Nat.sub_self]
    decide

end FireCounter.Counting

namespace FiringLine

variable {ω : Type} {w : FiringLine ω} {v : WatchedLine ω} {s : Scene ω}

/-- What arming, disarming and waits on a line lead to, from whatever its counters are. While it is armed nobody
acknowledges it besides. -/
inductive Reached (w : FiringLine ω) : WatchedLine ω → Prop
  | start (s : Scene ω) (armedAt : Nat) : w.Enrolled s → Reached w ⟨.idle, armedAt, s⟩
  | step {v : WatchedLine ω} (step : WatchedLine.Step) : Reached w v →
      (step = .acknowledge → ∀ expected, v.expectation ≠ .armed expected) → Reached w (w.perform v step)

theorem fireKeeps_poised (irq : UInt8) (e : Expectation) (armedAt : Nat) : FireKeeps irq (e.Poised armedAt) where
  fire := fun _ _ h expected he => (h expected he).fire

theorem Holds.unarmed {K : FireCounter → List Line.Event → Prop} {e : Expectation} {armedAt : Nat} (h : w.Holds K s)
    (he : ∀ expected, e ≠ .armed expected) : w.Holds (e.Poised armedAt) s :=
  ⟨h.enrolled, fun expected harmed => absurd harmed (he expected)⟩

/-- A line keeps its counter. -/
theorem keeps_enrolled (irq : UInt8) : Keeps irq fun _ _ => True where
  fire := fun _ _ _ => trivial
  acknowledge := fun _ _ _ => trivial

theorem unarmed_of_wait (w : FiringLine ω) (e : Expectation) (given : Bool) (poll : Routine Bool) (ms : Nat)
    (s : Scene ω) (expected : UInt32) : ((e.wait (w.passed given) poll ms).run w.machine s).1.2 ≠ .armed expected := by
  have hspent := (Program.execution_run w.machine (e.wait (w.passed given) poll ms) s).recorded
    (e.yields_wait_spent (w.passed given) poll ms [])
  intro harmed
  rcases hspent with hfired | hlate
  · rw [hfired] at harmed
    cases harmed
  · rw [hlate] at harmed
    cases harmed

theorem Reached.holds (h : w.Reached v) : w.Holds (v.expectation.Poised v.armedAt) v.scene := by
  induction h with
  | start s armedAt henrolled => exact ⟨henrolled, nofun⟩
  | @step v step _ hleft ih =>
    have henrolled : w.Holds (fun _ _ => True) v.scene := ⟨ih.enrolled, trivial⟩
    cases step with
    | fire => exact ih.fire (fireKeeps_poised _ _ _)
    | acknowledge => exact (henrolled.perform (keeps_enrolled _) .acknowledge).unarmed (hleft rfl)
    | arm =>
      refine ⟨(henrolled.perform (keeps_enrolled _) .arm).enrolled, ?_⟩
      rintro expected ⟨⟩
      have hcounter := counter_acknowledge ih.enrolled
      change (w.counter (w.remember (.acknowledge w.line.id) v.scene)).Counting
        ((w.counter (w.remember (.acknowledge w.line.id) v.scene)).fired + 1) v.scene.fires
        (w.remember (.acknowledge w.line.id) v.scene).events
      rw [hcounter, remember_acknowledge]
      exact FireCounter.Counting.arm
    | disarm => exact ⟨ih.enrolled, nofun⟩
    | wait given poll ms =>
      exact (henrolled.perform (keeps_enrolled _) (.wait given poll ms)).unarmed
        (unarmed_of_wait w v.expectation given poll ms v.scene)

end FiringLine

namespace LineWait

variable {ω : Type} {l : LineWait ω} {s : Scene ω} {armedAt ms t u : Nat}

/-- The line fires for the first time since it was armed, and is healthy. -/
structure FirstFire (l : LineWait ω) (armedAt : Nat) (s : Scene ω) (ms t : Nat) : Prop where
  intime : t ≤ ms
  heeded : l.heeds (l.found t s) = true
  fired : armedAt < (l.found t s).fires
  first : ∀ u < t, (l.found u s).fires ≤ armedAt

/-- The hardware says yes for the first time that it is asked. -/
structure Answered (l : LineWait ω) (s : Scene ω) (ms t : Nat) : Prop where
  intime : t ≤ ms
  asked : l.heeds (l.found t s) = true → t = ms
  answers : l.answers (l.found t s) = true
  first : ∀ u < t, l.heeds (l.found u s) = false → l.answers (l.found u s) = false

/-- How a wait ends. -/
structure Exact (l : LineWait ω) (armedAt : Nat) (s : Scene ω) (ms : Nat) : Prop where
  /-- The first fire ends it, and the hardware has not been asked. -/
  interrupt : ∀ t, l.FirstFire armedAt s ms t → l.Ended s ms .interrupt t ∧ ∀ u ≤ t, l.heeds (l.found u s) = true
  polled : (∀ t, ¬l.FirstFire armedAt s ms t) → ∀ t, l.Answered s ms t → l.Ended s ms .polled t
  timedOut : (∀ t, ¬l.FirstFire armedAt s ms t) → (∀ t, ¬l.Answered s ms t) → l.Ended s ms .timedOut ms
  /-- A line that has been given up ends no wait. -/
  healthy : ((l.wait ms).run l.firing.machine s).1.1 = .interrupt →
    (l.firing.counter ((l.wait ms).run l.firing.machine s).2).degraded = false
  /-- A healthy line does not fire in vain. -/
  heeded : ∀ t ≤ ms, l.heeds (l.found t s) = true → armedAt < (l.found t s).fires →
    ((l.wait ms).run l.firing.machine s).1.1 = .interrupt

theorem keeps_degraded (irq : UInt8) : FiringLine.Keeps irq fun c _ => c.degraded = true where
  fire := by
    intro c events h
    simp [FireCounter.fire, h]
  acknowledge := fun _ _ h => h

theorem heeds_of_next (henrolled : l.firing.Enrolled s) (h : l.heeds (l.next s) = true) : l.heeds s = true := by
  -- What is not heeded was given up, if it counts at all, and it stays so whatever the hardware is asked.
  by_contra hunheeded
  have hcounts : l.counts = true := by
    rw [heeds, Bool.and_eq_true] at h
    exact h.1
  have hdegraded : (l.firing.counter s).degraded = true := by simpa [heeds, hcounts] using hunheeded
  have hasked : l.firing.Holds (fun c _ => c.degraded = true) (l.asked s) :=
    FiringLine.Holds.run (keeps_degraded _) l.poll ⟨henrolled, hdegraded⟩
  have hnext : l.firing.Holds (fun c _ => c.degraded = true) (l.next s) := by
    rw [next, if_neg hunheeded]
    exact hasked.elapse (keeps_degraded _).toFireKeeps 1
  simp [heeds, hnext.holds] at h

theorem enrolled_next (henrolled : l.firing.Enrolled s) : l.firing.Enrolled (l.next s) := by
  have hnow : l.firing.Holds (fun _ _ => True) (if l.heeds s then s else l.asked s) := by
    split
    · exact ⟨henrolled, trivial⟩
    · exact FiringLine.Holds.run (FiringLine.keeps_enrolled _) l.poll ⟨henrolled, trivial⟩
  exact (hnow.elapse (FiringLine.keeps_enrolled _).toFireKeeps 1).enrolled

/-- A line that is heeded has been so at every look before. -/
theorem heeds_of_found (henrolled : l.firing.Enrolled s) (h : l.heeds (l.found t s) = true) (hu : u ≤ t) :
    l.heeds (l.found u s) = true := by
  induction t generalizing s u with
  | zero =>
    obtain rfl : u = 0 := by omega
    exact h
  | succ t ih =>
    have hrest := enrolled_next henrolled
    cases u with
    | zero => exact heeds_of_next henrolled (ih hrest h (Nat.zero_le t))
    | succ u =>
      have hlater : l.heeds (l.found u (l.next s)) = true := ih hrest h (by omega)
      exact hlater

/-- Until then the line is left to its handler. -/
theorem holds_found {K : FireCounter → List Line.Event → Prop} (hK : FiringLine.FireKeeps l.firing.line.irq K)
    (h : l.firing.Holds K s) (hheeds : ∀ u < t, l.heeds (l.found u s) = true) : l.firing.Holds K (l.found t s) := by
  induction t generalizing s with
  | zero => exact h
  | succ t ih =>
    have hnow : l.heeds s = true := hheeds 0 (by omega)
    have hnext : l.firing.Holds K (l.next s) := by
      rw [next, if_pos hnow]
      exact h.elapse hK 1
    exact ih hnext fun u hu => hheeds (u + 1) (by omega)

/-- A look at a line that is heeded sees whether it has fired since it was armed. -/
theorem caught_iff (h : l.firing.Holds (l.expectation.Poised armedAt) s) (hheeds : l.heeds (l.found t s) = true) :
    l.caught (l.found t s) = true ↔ armedAt < (l.found t s).fires := by
  have hbefore : ∀ u < t, l.heeds (l.found u s) = true :=
    fun u hu => heeds_of_found h.enrolled hheeds (Nat.le_of_lt hu)
  have hfound := holds_found (FiringLine.fireKeeps_poised _ _ _) h hbefore
  obtain ⟨-, ⟨expected, harmed⟩, hhealthy⟩ := heeds_iff.mp hheeds
  rw [caught, harmed]
  exact (hfound.holds expected harmed).caughtUp_iff hhealthy

theorem FirstFire.heeds (h : l.FirstFire armedAt s ms t) (henrolled : l.firing.Enrolled s) (hu : u ≤ t) :
    l.heeds (l.found u s) = true := heeds_of_found henrolled h.heeded hu

theorem FirstFire.ended (h : l.FirstFire armedAt s ms t) (hpoised : l.firing.Holds (l.expectation.Poised armedAt) s) :
    l.Ended s ms .interrupt t := by
  have hsilent : ∀ u < t, l.Silent (l.found u s) := by
    intro u hu
    have hheeds := h.heeds hpoised.enrolled (Nat.le_of_lt hu)
    have hfirst := h.first u hu
    rw [Silent, if_pos hheeds, Bool.eq_false_iff]
    intro hcaught
    have hfired := (caught_iff hpoised hheeds).mp hcaught
    omega
  have hcaught := (caught_iff hpoised h.heeded).mpr h.fired
  have hlast : l.Ended (l.found t s) (ms - t) .interrupt 0 := ended_interrupt h.heeded hcaught
  have hended := hlast.after hsilent
  rwa [Nat.sub_add_cancel h.intime] at hended

/-- A fire that is heeded is the first one, or comes after it. -/
theorem exists_firstFire (henrolled : l.firing.Enrolled s) (hintime : t ≤ ms) (hheeds : l.heeds (l.found t s) = true)
    (hfired : armedAt < (l.found t s).fires) : ∃ u, l.FirstFire armedAt s ms u := by
  classical
  have hexists : ∃ u, armedAt < (l.found u s).fires := ⟨t, hfired⟩
  have hle : Nat.find hexists ≤ t := Nat.find_min' hexists hfired
  refine ⟨Nat.find hexists, by omega, heeds_of_found henrolled hheeds hle, Nat.find_spec hexists, ?_⟩
  intro u hu
  exact Nat.le_of_not_lt (Nat.find_min hexists hu)

/-- Where no fire ends a wait, a line that is heeded has not caught up. -/
theorem not_caught (hpoised : l.firing.Holds (l.expectation.Poised armedAt) s)
    (hnone : ∀ t, ¬l.FirstFire armedAt s ms t) (hintime : t ≤ ms) (hheeds : l.heeds (l.found t s) = true) :
    l.caught (l.found t s) = false := by
  rw [Bool.eq_false_iff]
  intro hcaught
  have hfired := (caught_iff hpoised hheeds).mp hcaught
  obtain ⟨u, hfire⟩ := exists_firstFire hpoised.enrolled hintime hheeds hfired
  exact hnone u hfire

theorem silent_before (hpoised : l.firing.Holds (l.expectation.Poised armedAt) s)
    (hnone : ∀ t, ¬l.FirstFire armedAt s ms t) (hintime : t ≤ ms)
    (hfirst : ∀ u < t, l.heeds (l.found u s) = false → l.answers (l.found u s) = false) :
    ∀ u < t, l.Silent (l.found u s) := by
  intro u hu
  by_cases hheeds : l.heeds (l.found u s) = true
  · rw [Silent, if_pos hheeds]
    exact not_caught hpoised hnone (by omega) hheeds
  · rw [Silent, if_neg hheeds]
    exact hfirst u hu (Bool.eq_false_iff.mpr hheeds)

theorem Answered.ended (h : l.Answered s ms t) (hpoised : l.firing.Holds (l.expectation.Poised armedAt) s)
    (hnone : ∀ t, ¬l.FirstFire armedAt s ms t) : l.Ended s ms .polled t := by
  have hask : if l.heeds (l.found t s) then ms - t = 0 ∧ l.caught (l.found t s) = false else True := by
    split
    · rename_i hheeds
      have hlast := h.asked hheeds
      exact ⟨by omega, not_caught hpoised hnone h.intime hheeds⟩
    · trivial
  have hended := (ended_polled hask h.answers).after (silent_before hpoised hnone h.intime h.first)
  rwa [Nat.sub_add_cancel h.intime] at hended

/-- Where the hardware never says yes in time, it says no whenever it is asked. -/
theorem not_answers (hnone : ∀ t, ¬l.Answered s ms t) (hintime : t ≤ ms)
    (hasked : l.heeds (l.found t s) = true → t = ms) : l.answers (l.found t s) = false := by
  -- The first time that it said yes would be its answer.
  induction t using Nat.strongRecOn with
  | ind t ih =>
    rw [Bool.eq_false_iff]
    intro hanswers
    refine hnone t ⟨hintime, hasked, hanswers, ?_⟩
    intro u hu hunheeded
    exact ih u hu (by omega) fun hheeds => absurd hheeds (Bool.eq_false_iff.mp hunheeded)

theorem ended_late (hpoised : l.firing.Holds (l.expectation.Poised armedAt) s)
    (hnone : ∀ t, ¬l.FirstFire armedAt s ms t) (hnever : ∀ t, ¬l.Answered s ms t) : l.Ended s ms .timedOut ms := by
  have hfirst : ∀ u < ms, l.heeds (l.found u s) = false → l.answers (l.found u s) = false := by
    intro u hu hunheeded
    exact not_answers hnever (Nat.le_of_lt hu) fun hheeds => absurd hheeds (Bool.eq_false_iff.mp hunheeded)
  have hlast := ended_timedOut (not_caught hpoised hnone (Nat.le_refl ms))
    (not_answers hnever (Nat.le_refl ms) fun _ => rfl)
  have hended := hlast.after (silent_before hpoised hnone (Nat.le_refl ms) hfirst)
  rwa [Nat.zero_add] at hended

/-- An interrupt is there if a wait ends with one. -/
theorem exists_firstFire_of_interrupt (hpoised : l.firing.Holds (l.expectation.Poised armedAt) s)
    (h : ((l.wait ms).run l.firing.machine s).1.1 = .interrupt) : ∃ t, l.FirstFire armedAt s ms t := by
  by_contra hnone
  have hnone := not_exists.mp hnone
  by_cases hanswered : ∃ t, l.Answered s ms t
  · obtain ⟨t, hanswered⟩ := hanswered
    rw [(hanswered.ended hpoised hnone).outcome] at h
    cases h
  · rw [(ended_late hpoised hnone (not_exists.mp hanswered)).outcome] at h
    cases h

theorem exact_of_poised (hpoised : l.firing.Holds (l.expectation.Poised armedAt) s) (ms : Nat) :
    l.Exact armedAt s ms where
  interrupt t hfire := ⟨hfire.ended hpoised, fun _ hu => hfire.heeds hpoised.enrolled hu⟩
  polled hnone t hanswered := hanswered.ended hpoised hnone
  timedOut hnone hnever := ended_late hpoised hnone hnever
  healthy := by
    intro hinterrupt
    obtain ⟨t, hfire⟩ := exists_firstFire_of_interrupt hpoised hinterrupt
    have hbefore : ∀ u < t, l.heeds (l.found u s) = true :=
      fun u hu => hfire.heeds hpoised.enrolled (Nat.le_of_lt hu)
    have hfound : l.firing.Enrolled (l.found t s) :=
      (holds_found (FiringLine.fireKeeps_poised _ _ _) hpoised hbefore).enrolled
    rw [(hfire.ended hpoised).scene]
    change (l.firing.counter (l.firing.remember _ _)).degraded = false
    rw [FiringLine.counter_acknowledge hfound]
    exact (heeds_iff.mp hfire.heeded).2.2
  heeded := by
    intro t hintime hheeds hfired
    obtain ⟨u, hfire⟩ := exists_firstFire hpoised.enrolled hintime hheeds hfired
    rw [(hfire.ended hpoised).outcome]

end LineWait

/-- A wait on a line ends as its first fire since it was armed, its health and the hardware have it, in every state
that arming, disarming and earlier waits lead to. -/
theorem wait_exact {ω : Type} {w : FiringLine ω} {v : WatchedLine ω} (h : w.Reached v) (given : Bool)
    (poll : Routine Bool) (ms : Nat) : (LineWait.mk w given v.expectation poll).Exact v.armedAt v.scene ms :=
  LineWait.exact_of_poised h.holds ms

/-- A line that fires at three o'clock. -/
def FiringLine.atThree : FiringLine Clock := ⟨⟨6, 0⟩, Clock.machine, fun k => if k.now = 3 then 1 else 0⟩

/-- It is armed when its count is about to wrap round. -/
def WatchedLine.wrapping : WatchedLine Clock :=
  [WatchedLine.Step.fire, .arm].foldl FiringLine.atThree.perform
    ⟨.idle, 0, ⟨{}, { counters := #[{ fired := 0xFFFFFFFE }] }, []⟩⟩

theorem wait_exact_wrapping :
    FiringLine.atThree.Reached WatchedLine.wrapping ∧ WatchedLine.wrapping.expectation = .armed 0 ∧
    (LineWait.mk FiringLine.atThree true WatchedLine.wrapping.expectation Clock.ask).Ended
      WatchedLine.wrapping.scene 5 .interrupt 3 := by
  have hreached : FiringLine.atThree.Reached WatchedLine.wrapping :=
    .step .arm (.step .fire (.start _ 0 Nat.zero_lt_one) nofun) nofun
  have hexact := wait_exact hreached true Clock.ask 5
  exact ⟨hreached, by decide, (hexact.interrupt 3 ⟨by decide, by decide, by decide, by decide⟩).1⟩

end Diskette
