import Diskette.Pc.Emulated
import Diskette.Pc.Timer
import Diskette.Proofs.Careful.Basic
import Diskette.Proofs.Residue.Chip
import Mathlib.Algebra.BigOperators.Intervals
import Mathlib.Algebra.Order.BigOperators.Group.Finset

/-!
Delays against a counter that runs. Whatever it counts down from and however far it gets between one latch and the next,
the steps that a delay adds up are those that the counter took, and the delay ends with the latch that makes them enough.
-/
namespace Diskette.Pc

/-- A counter that is latched: what it shows is what it was at the latch, its lower byte first. -/
structure Counter where
  count : Nat
  latched : UInt16
  /-- The next byte is the upper one. -/
  upper : Bool
  /-- Latches so far. -/
  latches : Nat
  deriving DecidableEq

namespace Counter

-- what the counter counts down from, and its steps between each latch and the next
variable (period : Nat) (steps : Nat → Nat)

/-- Latches the count. By the next latch the counter has gone on, and has been reloaded if it had to. -/
def latch (c : Counter) : Counter where
  count := (c.count + period - steps c.latches) % period
  latched := UInt16.ofNat c.count
  upper := false
  latches := c.latches + 1

/-- A processor with the counter beside whatever else there is. -/
def mounted {ω : Type} (rest : Machine Cpu ω) : Machine Cpu (Counter × ω) where
  step
    | .input port, (c, world) =>
      if port = Timer.counterPort then (Chip.byteOf c.latched c.upper, { c with upper := !c.upper }, world)
      else
        let (reply, world) := rest.step (.input port) world
        (reply, c, world)
    | .output port value, (c, world) =>
      if port = Timer.commandPort ∧ value &&& 0xF0 = 0 then ((), c.latch period steps, world)
      else ((), c, (rest.step (.output port value) world).2)
    | call, (c, world) =>
      let (reply, world) := rest.step call world
      (reply, c, world)

/-- The steps from the next latch to the one that comes so many later. -/
def travelled (c : Counter) (n : Nat) : Nat := ∑ i ∈ Finset.range n, steps (c.latches + i)

variable {period steps} {c : Counter}

theorem travelled_zero : c.travelled steps 0 = 0 := Finset.sum_range_zero _

theorem travelled_succ (period n : Nat) :
    c.travelled steps (n + 1) = steps c.latches + (c.latch period steps).travelled steps n := by
  simp only [travelled, latch, Finset.sum_range_succ', Nat.add_assoc, Nat.add_comm 1, Nat.add_zero]
  exact Nat.add_comm ..

theorem latches_iterate (n : Nat) : ((latch period steps)^[n] c).latches = c.latches + n := by
  induction n generalizing c with
  | zero => rfl
  | succ n ih =>
    rw [Function.iterate_succ_apply, ih]
    simp [latch]
    omega

theorem count_latch_lt (hperiod : 0 < period) : (c.latch period steps).count < period := Nat.mod_lt _ hperiod

/-- To read the count latches it. -/
theorem run_readCount {ω : Type} (rest : Machine Cpu ω) (world : ω) (hcount : c.count < 0x10000) :
    Timer.readCount.run (mounted period steps rest) (c, world) = (UInt32.ofNat c.count, c.latch period steps, world) := by
  have hword : (UInt16.ofNat c.count).toNat = c.count := by simp; omega
  have hjoin : (Chip.byteOf (UInt16.ofNat c.count) true).toUInt32 <<< 8 ||| (Chip.byteOf (UInt16.ofNat c.count) false).toUInt32 =
      UInt32.ofNat c.count := by
    apply UInt32.toNat_inj.mp
    rw [Chip.toNat_join, hword, UInt32.toNat_ofNat_of_lt' (by simp only [UInt32.size]; omega)]
  rw [← hjoin]
  rfl

end Counter

namespace Timer

open Careful

theorem minus?_eq_some {a b d : Nat} : minus? a b = some d ↔ b ≤ a ∧ a - b = d := by simp [minus?]

theorem plus?_eq_some {limit a b sum : Nat} : plus? limit a b = some sum ↔ a + b < limit ∧ a + b = sum := by simp [plus?]

/-- The steps from one count to the next, in 32 bits. -/
def carefulSteps (last now period : Nat) : Option Nat :=
  if now ≤ last then minus? last now else do minus? (← plus? (2 ^ 32) last period) now

/-- Counts as the delay does, in 64 bits, and breaks off where that goes out of range. -/
def carefulWait (period target : Nat) : (latches elapsed last : Nat) → Code (Option Bool)
  | 0, elapsed, _ => return some (target ≤ elapsed)
  | latches + 1, elapsed, last => do
    if elapsed < target then
      let now ← readCount
      match (do plus? (2 ^ 64) elapsed (← carefulSteps last now.toNat period)) with
      | none => return none
      | some elapsed => carefulWait period target latches elapsed now.toNat
    else return some true

/-- The steps that make up a delay. -/
def goal (t : Timer) (ms : UInt32) : Nat :=
  ms.toNat * 1194 * (match t.mode with | .rateGenerator => 1 | .squareWave => 2)

/-- The delay with careful counting. -/
def carefulWithin (t : Timer) (latches : Nat) (ms : UInt32) : Code (Option Bool) := do
  let start ← readCount
  carefulWait t.period.toNat (t.goal ms) latches 0 start.toNat

variable {t : Timer} {ms : UInt32}

theorem goal_lt (t : Timer) (ms : UInt32) : t.goal ms < 2 ^ 44 := by
  have hms := ms.toNat_lt
  cases hmode : t.mode <;> simp only [goal, hmode] <;> omega

theorem toNat_stepsFor (t : Timer) (ms : UInt32) : (t.stepsFor ms).toNat = t.goal ms := by
  have hms := ms.toNat_lt
  have hclocks : clocksInMs.toNat = 1194 := rfl
  cases hmode : t.mode with
  | rateGenerator =>
    have hone : (stepsPerClock .rateGenerator).toNat = 1 := rfl
    simp only [stepsFor, goal, hmode, UInt64.toNat_mul, UInt32.toNat_toUInt64, hclocks, hone]
    omega
  | squareWave =>
    have htwo : (stepsPerClock .squareWave).toNat = 2 := rfl
    simp only [stepsFor, goal, hmode, UInt64.toNat_mul, UInt32.toNat_toUInt64, hclocks, htwo]
    omega

theorem period_pos (t : Timer) : 0 < t.period.toNat := by
  by_cases hzero : t.divisor = 0
  · simp [period, hzero]
  · have hne : t.divisor.toNat ≠ 0 := fun h => hzero (UInt16.toNat_inj.mp h)
    simp only [period, hzero, ↓reduceIte, UInt16.toNat_toUInt32]
    omega

theorem period_le (t : Timer) : t.period.toNat ≤ 0x10000 := by
  have hdivisor := t.divisor.toNat_lt
  by_cases hzero : t.divisor = 0
  · simp [period, hzero]
  · simp only [period, hzero, ↓reduceIte, UInt16.toNat_toUInt32]
    omega

theorem toNat_stepsBetween {last now period : UInt32} {steps : Nat}
    (h : carefulSteps last.toNat now.toNat period.toNat = some steps) : (stepsBetween last now period).toNat = steps := by
  by_cases hle : now.toNat ≤ last.toNat
  · have hle' : now ≤ last := UInt32.le_iff_toNat_le.mpr hle
    rw [carefulSteps, if_pos hle] at h
    rw [stepsBetween, if_pos hle', UInt32.toNat_sub_of_le _ _ hle', (minus?_eq_some.mp h).2]
  · rw [carefulSteps, if_neg hle] at h
    obtain ⟨sum, hplus, hminus⟩ := Option.bind_eq_some_iff.mp h
    obtain ⟨hsum, rfl⟩ := plus?_eq_some.mp hplus
    obtain ⟨hnow, rfl⟩ := minus?_eq_some.mp hminus
    have htoNat : (last + period).toNat = last.toNat + period.toNat := by
      rw [UInt32.toNat_add, Nat.mod_eq_of_lt hsum]
    have hnow' : now ≤ last + period := UInt32.le_iff_toNat_le.mpr (htoNat ▸ hnow)
    rw [stepsBetween, if_neg (mt UInt32.le_iff_toNat_le.mp hle), UInt32.toNat_sub_of_le _ _ hnow', htoNat]

/-- Where careful counting breaks off nowhere it is what the delay does. -/
theorem run_waitCounts_of_careful {σ : Type} {m : Machine Cpu σ} {period last : UInt32} {target elapsed : UInt64}
    {latches : Nat} {s s' : σ} {ended : Bool}
    (h : (carefulWait period.toNat target.toNat latches elapsed.toNat last.toNat).run m s = (some ended, s')) :
    (waitCounts period target latches elapsed last).run m s = (ended, s') := by
  induction latches generalizing elapsed last s with
  | zero =>
    obtain ⟨hended, rfl⟩ := Prod.mk.inj h
    obtain rfl := Option.some.inj hended
    rfl
  | succ latches ih =>
    by_cases hshort : elapsed < target
    · rw [carefulWait, if_pos (UInt64.lt_iff_toNat_lt.mp hshort), Program.run_bind] at h
      rw [waitCounts, if_pos hshort, Program.run_bind]
      generalize readCount.run m s = read at h
      obtain ⟨now, s₁⟩ := read
      simp only at h ⊢
      split at h
      · cases h
      · rename_i sum hsum
        obtain ⟨steps, hsteps, hplus⟩ := Option.bind_eq_some_iff.mp hsum
        have hsum := plus?_eq_some.mp hplus
        have helapsed : (elapsed + (stepsBetween last now period).toUInt64).toNat = sum := by
          rw [UInt64.toNat_add, UInt32.toNat_toUInt64, toNat_stepsBetween hsteps, Nat.mod_eq_of_lt hsum.1, hsum.2]
        rw [← helapsed] at h
        exact ih h
    · rw [carefulWait, if_neg (mt UInt64.lt_iff_toNat_lt.mpr hshort)] at h
      rw [waitCounts, if_neg hshort]
      obtain ⟨hended, rfl⟩ := Prod.mk.inj h
      obtain rfl := Option.some.inj hended
      rfl

theorem run_delayWithin_of_careful {σ : Type} {m : Machine Cpu σ} {latches : Nat} {s s' : σ} {ended : Bool}
    (h : (t.carefulWithin latches ms).run m s = (some ended, s')) : (t.delayWithin latches ms).run m s = (ended, s') := by
  rw [carefulWithin, Program.run_bind, ← toNat_stepsFor] at h
  rw [delayWithin, Program.run_bind]
  exact run_waitCounts_of_careful h

end Timer

namespace Counter

open Timer Careful

variable {ω : Type} {rest : Machine Cpu ω} {world : ω} {period : Nat} {steps : Nat → Nat} {c : Counter}

/-- From one latch to the next the steps are those that the counter took, over a reload or not. -/
theorem carefulSteps_latch (hcount : c.count < period) (hperiod : period ≤ 0x10000) (hsteps : steps c.latches < period) :
    carefulSteps c.count (c.latch period steps).count period = some (steps c.latches) := by
  by_cases hreload : c.count < steps c.latches
  · have hcount' : (c.latch period steps).count = c.count + period - steps c.latches :=
      Nat.mod_eq_of_lt (by omega)
    rw [carefulSteps, hcount', if_neg (by omega), plus?_eq (by omega)]
    exact (minus?_eq (by omega)).trans (congrArg some (by omega))
  · have hcount' : (c.latch period steps).count = c.count - steps c.latches := by
      have hsplit : c.count + period - steps c.latches = c.count - steps c.latches + period := by omega
      rw [latch, hsplit, Nat.add_mod_right, Nat.mod_eq_of_lt (by omega)]
    rw [carefulSteps, hcount', if_pos (by omega)]
    exact (minus?_eq (by omega)).trans (congrArg some (by omega))

/-- Careful counting ends at the first latch that makes the steps enough, if there are so many latches. -/
theorem run_carefulWait (hperiod : period ≤ 0x10000) (hsteps : ∀ i, steps i < period) {target : Nat}
    (htarget : target < 2 ^ 44) {latches elapsed k : Nat} (hcount : c.count < period)
    (hshort : ∀ n < k, elapsed + c.travelled steps n < target)
    (henough : k ≤ latches → target ≤ elapsed + c.travelled steps k) :
    (carefulWait period target latches elapsed c.count).run (mounted period steps rest) (c.latch period steps, world) =
      (some (decide (k ≤ latches)), (latch period steps)^[min k latches + 1] c, world) := by
  induction latches generalizing c elapsed k with
  | zero =>
    have hiff : target ≤ elapsed ↔ k ≤ 0 := by
      constructor
      · intro hle
        by_contra hpos
        exact absurd (hshort 0 (by omega)) (by rw [travelled_zero]; omega)
      · intro hk
        obtain rfl : k = 0 := by omega
        simpa [travelled_zero] using henough hk
    simp [carefulWait, Program.run, hiff]
  | succ latches ih =>
    cases k with
    | zero =>
      have hdone : target ≤ elapsed := by simpa [travelled_zero] using henough (Nat.zero_le _)
      simp [carefulWait, Nat.not_lt.mpr hdone, Program.run]
    | succ k =>
      have hgoing : elapsed < target := by simpa [travelled_zero] using hshort 0 (by omega)
      have hnext : (c.latch period steps).count < period := count_latch_lt (by omega)
      have hfits : (UInt32.ofNat (c.latch period steps).count).toNat = (c.latch period steps).count :=
        UInt32.toNat_ofNat_of_lt' (by simp [UInt32.size]; omega)
      have hless := hsteps c.latches
      rw [carefulWait, if_pos hgoing, Program.run_bind, run_readCount rest world (by omega)]
      simp only [hfits, carefulSteps_latch hcount hperiod hless, Option.bind_eq_bind, Option.bind_some,
        plus?_eq (show elapsed + steps c.latches < 2 ^ 64 by omega)]
      rw [ih hnext (k := k)]
      · simp [Nat.add_min_add_right, Function.iterate_succ_apply]
      · intro n hn
        have hsum := hshort (n + 1) (by omega)
        rw [travelled_succ period] at hsum
        omega
      · intro hk
        have hsum := henough (by omega)
        rw [travelled_succ period] at hsum
        omega

/-- A counter that does not stand still for a whole turn of latches has made as many steps as there were turns. -/
theorem le_travelled (hmoves : ∀ i, ∃ j < 0x10000, 0 < steps (i + j)) (n : Nat) :
    n ≤ c.travelled steps (n * 0x10000) := by
  induction n with
  | zero => exact Nat.zero_le _
  | succ n ih =>
    obtain ⟨j, hj, hstep⟩ := hmoves (c.latches + n * 0x10000)
    have hturn : 0 < ∑ i ∈ Finset.range 0x10000, steps (c.latches + (n * 0x10000 + i)) := by
      refine hstep.trans_le ?_
      rw [Nat.add_assoc]
      exact Finset.single_le_sum (f := fun i => steps (c.latches + (n * 0x10000 + i)))
        (fun i _ => Nat.zero_le _) (Finset.mem_range.mpr hj)
    rw [Nat.succ_mul, travelled, Finset.sum_range_add]
    exact Nat.add_le_add ih hturn

/-- Once the steps get far enough there is a first latch where they are. -/
theorem exists_isLeast {goal n : Nat} (h : goal ≤ c.travelled steps n) :
    ∃ k ≤ n, IsLeast {n | goal ≤ c.travelled steps n} k := by
  classical
  have hexists : ∃ n, goal ≤ c.travelled steps n := ⟨n, h⟩
  exact ⟨Nat.find hexists, Nat.find_le h, Nat.find_spec hexists, fun m hm => Nat.find_le hm⟩

end Counter

namespace Timer

open Counter

/-- A delay against a counter that has got far enough by a certain latch after the first. -/
structure Ends {ω : Type} (t : Timer) (ms : UInt32) (steps : Nat → Nat) (rest : Machine Cpu ω) (c : Counter) (world : ω)
    (k : Nat) : Prop where
  /-- With as many latches it ends at that one, and with fewer it does not end. -/
  exact : ∀ latches, (t.delayWithin latches ms).run (mounted t.period.toNat steps rest) (c, world) =
    (decide (k ≤ latches), (latch t.period.toNat steps)^[min k latches + 1] c, world)
  latches : ((latch t.period.toNat steps)^[k + 1] c).latches = c.latches + (k + 1)
  /-- So many latches are waited for. -/
  patient : k ≤ t.patience ms → (t.delay ms).run (mounted t.period.toNat steps rest) (c, world) =
    ((), (latch t.period.toNat steps)^[k + 1] c, world)
  /-- Nothing that it counts goes out of range. -/
  careful : ∀ latches, (t.carefulWithin latches ms).run (mounted t.period.toNat steps rest) (c, world) =
    (some (decide (k ≤ latches)), (latch t.period.toNat steps)^[min k latches + 1] c, world)
  /-- The clocks that have passed make up the time. -/
  long : ms.toNat * frequency ≤ 1000 * (c.travelled steps k / (stepsPerClock t.mode).toNat)

variable {ω : Type} {rest : Machine Cpu ω} {world : ω} {steps : Nat → Nat} {c : Counter} {t : Timer} {ms : UInt32}
  {k latches : Nat}

theorem run_carefulWithin (hcount : c.count < t.period.toNat) (hsteps : ∀ i, steps i < t.period.toNat)
    (hshort : ∀ n < k, c.travelled steps n < t.goal ms) (henough : k ≤ latches → t.goal ms ≤ c.travelled steps k) :
    (t.carefulWithin latches ms).run (mounted t.period.toNat steps rest) (c, world) =
      (some (decide (k ≤ latches)), (latch t.period.toNat steps)^[min k latches + 1] c, world) := by
  have hperiod := t.period_le
  have hfits : (UInt32.ofNat c.count).toNat = c.count := UInt32.toNat_ofNat_of_lt' (by simp only [UInt32.size]; omega)
  rw [carefulWithin, Program.run_bind, run_readCount rest world (by omega)]
  simp only [hfits]
  exact run_carefulWait hperiod hsteps (goal_lt t ms) hcount (by simpa using hshort) (by simpa using henough)

theorem long_enough {travelled : Nat} (h : t.goal ms ≤ travelled) :
    ms.toNat * frequency ≤ 1000 * (travelled / (stepsPerClock t.mode).toNat) := by
  cases hmode : t.mode with
  | rateGenerator =>
    have hone : (stepsPerClock .rateGenerator).toNat = 1 := rfl
    simp only [goal, hmode] at h
    simp only [hone, frequency]
    omega
  | squareWave =>
    have htwo : (stepsPerClock .squareWave).toNat = 2 := rfl
    simp only [goal, hmode] at h
    simp only [htwo, frequency]
    omega

theorem ends (hcount : c.count < t.period.toNat) (hsteps : ∀ i, steps i < t.period.toNat)
    (hleast : IsLeast {n | t.goal ms ≤ c.travelled steps n} k) : t.Ends ms steps rest c world k := by
  have hshort : ∀ n < k, c.travelled steps n < t.goal ms :=
    fun n hn => Nat.lt_of_not_le fun hle => absurd (hleast.2 hle) (by omega)
  have hcareful : ∀ latches, (t.carefulWithin latches ms).run (mounted t.period.toNat steps rest) (c, world) =
      (some (decide (k ≤ latches)), (latch t.period.toNat steps)^[min k latches + 1] c, world) :=
    fun latches => run_carefulWithin hcount hsteps hshort fun _ => hleast.1
  have hexact := fun latches => run_delayWithin_of_careful (hcareful latches)
  constructor
  case exact => exact hexact
  case latches => exact latches_iterate _
  case patient =>
    intro hpatience
    rw [delay, Program.run_bind, hexact, Nat.min_eq_left hpatience]
    rfl
  case careful => exact hcareful
  case long => exact long_enough hleast.1

/-- What the delay measures from one latch to the next is what the counter went. -/
theorem measured (hcount : c.count < t.period.toNat) (hsteps : ∀ i, steps i < t.period.toNat) :
    (stepsBetween (UInt32.ofNat c.count) (UInt32.ofNat (c.latch t.period.toNat steps).count) t.period).toNat =
      steps c.latches := by
  have hperiod := t.period_le
  have hnext : (c.latch t.period.toNat steps).count < t.period.toNat := count_latch_lt t.period_pos
  have hfits : ∀ n < t.period.toNat, (UInt32.ofNat n).toNat = n :=
    fun n hn => UInt32.toNat_ofNat_of_lt' (by simp only [UInt32.size]; omega)
  apply toNat_stepsBetween
  rw [hfits _ hcount, hfits _ hnext]
  exact carefulSteps_latch hcount hperiod (hsteps _)

theorem count_iterate_lt (hcount : c.count < t.period.toNat) (n : Nat) :
    ((latch t.period.toNat steps)^[n] c).count < t.period.toNat := by
  cases n with
  | zero => exact hcount
  | succ n =>
    rw [Function.iterate_succ_apply']
    exact count_latch_lt t.period_pos

/-- Against a counter that never gets that far the delay does not end. -/
theorem never_ends (hcount : c.count < t.period.toNat) (hsteps : ∀ i, steps i < t.period.toNat)
    (hshort : ∀ n, c.travelled steps n < t.goal ms) (latches : Nat) :
    (t.delayWithin latches ms).run (mounted t.period.toNat steps rest) (c, world) =
      (false, (latch t.period.toNat steps)^[latches + 1] c, world) := by
  have hcareful : (t.carefulWithin latches ms).run (mounted t.period.toNat steps rest) (c, world) =
      (some (decide (latches + 1 ≤ latches)), (latch t.period.toNat steps)^[min (latches + 1) latches + 1] c, world) :=
    run_carefulWithin hcount hsteps (fun n _ => hshort n) fun hle => absurd hle (by omega)
  have hmore : ¬ latches + 1 ≤ latches := by omega
  have hmin : min (latches + 1) latches = latches := by omega
  rw [hmin, decide_eq_false hmore] at hcareful
  exact run_delayWithin_of_careful hcareful

/-- The delay is over with the first latch that makes the steps enough, whatever the counter counts down from and
however far it gets between one latch and the next; so it is over if the steps know no bound, and not too soon. -/
theorem delay_never_short (t : Timer) (ms : UInt32) (rest : Machine Cpu ω) (world : ω) (steps : Nat → Nat) (c : Counter)
    (hcount : c.count < t.period.toNat) (hsteps : ∀ i, steps i < t.period.toNat) :
    (∀ k, IsLeast {n | t.goal ms ≤ c.travelled steps n} k → t.Ends ms steps rest c world k) ∧
    ((∀ m, ∃ n, m ≤ c.travelled steps n) → ∃ k, IsLeast {n | t.goal ms ≤ c.travelled steps n} k) ∧
    ((∀ i, ∃ j < 0x10000, 0 < steps (i + j)) →
      ∃ k ≤ t.patience ms, IsLeast {n | t.goal ms ≤ c.travelled steps n} k) ∧
    ((∀ n, c.travelled steps n < t.goal ms) → ∀ latches,
      (t.delayWithin latches ms).run (mounted t.period.toNat steps rest) (c, world) =
        (false, (latch t.period.toNat steps)^[latches + 1] c, world)) ∧
    ∀ n, (stepsBetween (UInt32.ofNat ((latch t.period.toNat steps)^[n] c).count)
      (UInt32.ofNat ((latch t.period.toNat steps)^[n + 1] c).count) t.period).toNat = steps (c.latches + n) := by
  refine ⟨fun k hleast => ends hcount hsteps hleast, ?_, ?_, never_ends hcount hsteps, ?_⟩
  · intro hunbounded
    obtain ⟨n, hn⟩ := hunbounded (t.goal ms)
    obtain ⟨k, -, hleast⟩ := exists_isLeast hn
    exact ⟨k, hleast⟩
  · intro hmoves
    rw [patience, toNat_stepsFor]
    exact exists_isLeast (le_travelled hmoves (t.goal ms))
  · intro n
    have hbelow : ((latch t.period.toNat steps)^[n] c).count < t.period.toNat := count_iterate_lt hcount n
    have hmeasured := measured hbelow hsteps
    rwa [← Function.iterate_succ_apply' (latch t.period.toNat steps), latches_iterate] at hmeasured

/-- Two milliseconds on a counter that steps twice a clock and is reloaded between most latches. -/
theorem delay_never_short_reloading :
    let t : Timer := ⟨1000, .squareWave⟩
    let c : Counter := ⟨250, 0, true, 0⟩
    (t.delay 2).run (mounted 1000 (fun _ => 900) Emulated.bare) (c, {}) =
      ((), (latch 1000 fun _ => 900)^[7] c, {}) ∧ ((latch 1000 fun _ => 900)^[7] c).latches = 7 := by
  intro t c
  have hcounts := delay_never_short t 2 Emulated.bare {} (fun _ => 900) c (by decide) (fun _ => by decide)
  have hleast : IsLeast {n | t.goal 2 ≤ c.travelled (fun _ => 900) n} 6 := by
    have htravelled : ∀ n, c.travelled (fun _ => 900) n = n * 900 := fun n => by
      rw [travelled, Finset.sum_const_nat fun _ _ => rfl, Finset.card_range]
    have hgoal : t.goal 2 = 4776 := by decide
    constructor
    · change t.goal 2 ≤ c.travelled (fun _ => 900) 6
      rw [htravelled, hgoal]
      decide
    · intro n hn
      change t.goal 2 ≤ c.travelled (fun _ => 900) n at hn
      rw [htravelled, hgoal] at hn
      omega
  have hends := hcounts.1 6 hleast
  exact ⟨hends.patient (by decide), hends.latches⟩

end Timer

end Diskette.Pc
