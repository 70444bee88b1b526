import Diskette.Proofs.WatchedLine

/-!
A wait, look by look. Where there is a line that is armed and healthy, a look goes by its count; elsewhere, and when the
time is up, the hardware is asked. What is between two looks is a millisecond, with whatever it brings.
-/
namespace Diskette

/-- The expectation that a wait leaves. -/
def WaitEnd.leaves : WaitEnd → Expectation
  | .timedOut => .idle
  | _ => .fired

/-- A wait: the line that fires beside it, whether it is given that line, and what it is called with. -/
structure LineWait (ω : Type) where
  firing : FiringLine ω
  given : Bool
  expectation : Expectation
  poll : Routine Bool

namespace LineWait

variable {ω : Type} (l : LineWait ω)

def wait (ms : Nat) : Routine (WaitEnd × Expectation) :=
  l.expectation.wait (l.firing.passed l.given) l.poll ms

/-- The line is there and armed. -/
def counts : Bool := l.given && l.expectation matches .armed _

/-- The wait goes by the line: it is there, armed, and not degraded. -/
def heeds (s : Scene ω) : Bool := l.counts && !(l.firing.counter s).degraded

/-- Whether the hardware says yes, when it is asked. -/
def answers (s : Scene ω) : Bool := (l.poll.run l.firing.machine s).1

/-- What comes of asking. -/
def asked (s : Scene ω) : Scene ω := (l.poll.run l.firing.machine s).2

/-- From one look to the next. -/
def next (s : Scene ω) : Scene ω := l.firing.elapse 1 (if l.heeds s then s else l.asked s)

/-- What a look finds that comes after so many milliseconds. -/
def found (t : Nat) (s : Scene ω) : Scene ω := l.next^[t] s

/-- What a look reads of the counters. -/
def readings (s : Scene ω) : History Platform :=
  if l.counts then
    ⟨.memory (.degraded l.firing.line.id), (l.firing.counter s).degraded⟩ ::
      if (l.firing.counter s).degraded then [] else [⟨.memory (.fired l.firing.line.id), (l.firing.counter s).fired⟩]
  else []

/-- The calls of a millisecond: the hardware is asked where the line is not heeded. -/
def tick (s : Scene ω) : History Platform :=
  l.readings s ++ (if l.heeds s then [] else l.poll.history l.firing.machine s) ++ [⟨.delay 1, ()⟩]

/-- The last call of a wait that its interrupt ends, and the last calls of another. -/
def closing (s : Scene ω) : WaitEnd → History Platform
  | .interrupt => [⟨.memory (.acknowledge l.firing.line.id), ()⟩]
  | _ => l.poll.history l.firing.machine s

def closed (s : Scene ω) : WaitEnd → Scene ω
  | .interrupt => l.firing.remember (.acknowledge l.firing.line.id) s
  | _ => l.asked s

/-- A wait has ended in this way, after so many of its milliseconds. -/
structure Ended (s : Scene ω) (ms : Nat) (result : WaitEnd) (t : Nat) : Prop where
  outcome : ((l.wait ms).run l.firing.machine s).1 = (result, result.leaves)
  scene : ((l.wait ms).run l.firing.machine s).2 = l.closed (l.found t s) result
  history : (l.wait ms).history l.firing.machine s =
    (List.range t).flatMap (fun u => l.tick (l.found u s)) ++ l.readings (l.found t s) ++
      l.closing (l.found t s) result

/-- The count of the line has come to what is expected. -/
def caught (s : Scene ω) : Bool :=
  match l.expectation with
  | .armed expected => caughtUp (l.firing.counter s).fired expected
  | _ => false

/-- What a look does once it has read the counters. -/
def act (last : Bool) (s : Scene ω) : Routine (Option WaitEnd) :=
  if l.heeds s then
    if l.caught s then .call (.memory (.acknowledge l.firing.line.id)) fun _ => .done (some .interrupt)
    else if last then Expectation.ask l.poll else .done none
  else Expectation.ask l.poll

/-- A look at which the wait goes on. -/
def Silent (s : Scene ω) : Prop := if l.heeds s then l.caught s = false else l.answers s = false

variable {l} {s : Scene ω} {ms t : Nat} {last : Bool}

theorem heeds_iff : l.heeds s = true ↔
    l.given = true ∧ (∃ expected, l.expectation = .armed expected) ∧ (l.firing.counter s).degraded = false := by
  cases he : l.expectation <;> simp [heeds, counts, he]

theorem run_ask : (Expectation.ask l.poll).run l.firing.machine s =
    (if l.answers s then some .polled else none, l.asked s) := by
  rw [Expectation.ask, Program.run_bind]
  rfl

theorem history_ask : (Expectation.ask l.poll).history l.firing.machine s = l.poll.history l.firing.machine s := by
  rw [Expectation.ask, Program.history_bind]
  exact List.append_nil _

/-- To read a counter leaves all as it is. -/
theorem read_degraded {α : Type} {w : FiringLine ω} {next : Bool → Routine α} :
    (Program.call (.memory (.degraded w.line.id)) next : Routine α).run w.machine s =
      (next (w.counter s).degraded).run w.machine s ∧
    (Program.call (.memory (.degraded w.line.id)) next : Routine α).history w.machine s =
      ⟨.memory (.degraded w.line.id), (w.counter s).degraded⟩ ::
        (next (w.counter s).degraded).history w.machine s := ⟨rfl, rfl⟩

theorem read_fired {α : Type} {w : FiringLine ω} {next : UInt32 → Routine α} :
    (Program.call (.memory (.fired w.line.id)) next : Routine α).run w.machine s =
      (next (w.counter s).fired).run w.machine s ∧
    (Program.call (.memory (.fired w.line.id)) next : Routine α).history w.machine s =
      ⟨.memory (.fired w.line.id), (w.counter s).fired⟩ :: (next (w.counter s).fired).history w.machine s := ⟨rfl, rfl⟩

/-- A look reads the counters, and acts on them. -/
theorem watch_eq (l : LineWait ω) (last : Bool) (s : Scene ω) :
    (l.expectation.watch (l.firing.passed l.given) l.poll last).run l.firing.machine s =
      (l.act last s).run l.firing.machine s ∧
    (l.expectation.watch (l.firing.passed l.given) l.poll last).history l.firing.machine s =
      l.readings s ++ (l.act last s).history l.firing.machine s := by
  obtain ⟨firing, given, expectation, poll⟩ := l
  cases given with
  | false => cases expectation <;> exact ⟨rfl, rfl⟩
  | true =>
    cases expectation with
    | idle => exact ⟨rfl, rfl⟩
    | fired => exact ⟨rfl, rfl⟩
    | armed expected =>
      simp only [FiringLine.passed, if_true, Expectation.watch_armed, read_degraded]
      cases hdegraded : (firing.counter s).degraded with
      | true => simp [act, heeds, counts, readings, hdegraded]
      | false => simp [act, heeds, counts, readings, caught, hdegraded, read_fired]

/-- What follows a look that has seen this. -/
def proceed (l : LineWait ω) : (ms : Nat) → Option WaitEnd → Routine (WaitEnd × Expectation)
  | _, some result => .done (result, .fired)
  | 0, none => .done (.timedOut, .idle)
  | ms + 1, none => .call (.delay 1) fun _ => l.wait ms

theorem wait_eq (l : LineWait ω) (ms : Nat) :
    l.wait ms = l.expectation.watch (l.firing.passed l.given) l.poll (ms = 0) >>= l.proceed ms := by
  cases ms with
  | zero =>
    rw [wait, Expectation.wait]
    congr 1
    funext seen
    cases seen <;> rfl
  | succ ms =>
    rw [wait, Expectation.wait]
    congr 1
    funext seen
    cases seen <;> rfl

/-- A wait is a look, and what follows it. -/
theorem wait_of_act {seen : Option WaitEnd} {after : Scene ω}
    (h : (l.act (ms = 0) s).run l.firing.machine s = (seen, after)) :
    (l.wait ms).run l.firing.machine s = (l.proceed ms seen).run l.firing.machine after ∧
      (l.wait ms).history l.firing.machine s =
        l.readings s ++ (l.act (ms = 0) s).history l.firing.machine s ++
          (l.proceed ms seen).history l.firing.machine after := by
  obtain ⟨hrun, hhistory⟩ := l.watch_eq (ms = 0) s
  constructor
  · rw [wait_eq, Program.run_bind, hrun, h]
  · rw [wait_eq, Program.history_bind, hrun, hhistory, h]

theorem found_succ (t : Nat) (s : Scene ω) : l.found (t + 1) s = l.found t (l.next s) := rfl

theorem ended_interrupt (hheeds : l.heeds s) (hcaught : l.caught s) : l.Ended s ms .interrupt 0 := by
  have hact : l.act (ms = 0) s =
      .call (.memory (.acknowledge l.firing.line.id)) fun _ => .done (some .interrupt) := by
    simp [act, hheeds, hcaught]
  have hseen : (l.act (ms = 0) s).run l.firing.machine s =
      (some .interrupt, l.firing.remember (.acknowledge l.firing.line.id) s) := by
    rw [hact]
    rfl
  obtain ⟨hrun, hhistory⟩ := wait_of_act hseen
  rw [hact] at hhistory
  exact ⟨congrArg Prod.fst hrun, congrArg Prod.snd hrun, hhistory.trans (List.append_nil _)⟩

/-- The hardware is asked where the line is not heeded, and when the time is up. -/
theorem act_ask (h : if l.heeds s then last ∧ l.caught s = false else True) :
    l.act last s = Expectation.ask l.poll := by
  by_cases hheeds : l.heeds s
  · rw [if_pos hheeds] at h
    simp [act, hheeds, h]
  · simp [act, hheeds]

theorem ended_polled (h : if l.heeds s then ms = 0 ∧ l.caught s = false else True) (hanswers : l.answers s) :
    l.Ended s ms .polled 0 := by
  have hact : l.act (ms = 0) s = Expectation.ask l.poll := act_ask (by simpa using h)
  have hseen : (l.act (ms = 0) s).run l.firing.machine s = (some .polled, l.asked s) := by
    rw [hact, run_ask, if_pos hanswers]
  obtain ⟨hrun, hhistory⟩ := wait_of_act hseen
  rw [hact, history_ask] at hhistory
  exact ⟨congrArg Prod.fst hrun, congrArg Prod.snd hrun, hhistory.trans (List.append_nil _)⟩

theorem ended_timedOut (h : l.heeds s → l.caught s = false) (hanswers : l.answers s = false) :
    l.Ended s 0 .timedOut 0 := by
  have hact : l.act ((0 : Nat) = 0) s = Expectation.ask l.poll := by
    apply act_ask
    split
    · rename_i hheeds
      exact ⟨rfl, h hheeds⟩
    · trivial
  have hseen : (l.act ((0 : Nat) = 0) s).run l.firing.machine s = (none, l.asked s) := by
    rw [hact, run_ask, hanswers]
    rfl
  obtain ⟨hrun, hhistory⟩ := wait_of_act hseen
  rw [hact, history_ask] at hhistory
  exact ⟨congrArg Prod.fst hrun, congrArg Prod.snd hrun, hhistory.trans (List.append_nil _)⟩

/-- A silent look leaves it at the hardware, if that is asked. -/
theorem Silent.act (h : l.Silent s) :
    (l.act false s).run l.firing.machine s = (none, if l.heeds s then s else l.asked s) ∧
      (l.act false s).history l.firing.machine s = if l.heeds s then [] else l.poll.history l.firing.machine s := by
  by_cases hheeds : l.heeds s
  · rw [Silent, if_pos hheeds] at h
    simp [LineWait.act, hheeds, h, Program.run, Program.history]
  · rw [Silent, if_neg hheeds] at h
    rw [act_ask (by simp [hheeds]), run_ask, history_ask, h]
    simp [hheeds]

/-- With a silent look a wait has a millisecond less to go. -/
theorem Ended.later {result : WaitEnd} (h : l.Ended (l.next s) ms result t) (hsilent : l.Silent s) :
    l.Ended s (ms + 1) result (t + 1) := by
  obtain ⟨hact, hcalls⟩ := hsilent.act
  have hseen : (l.act (ms + 1 = 0) s).run l.firing.machine s = (none, if l.heeds s then s else l.asked s) := hact
  obtain ⟨hrun, hhistory⟩ := wait_of_act hseen
  have hlater : (l.wait (ms + 1)).run l.firing.machine s = (l.wait ms).run l.firing.machine (l.next s) := hrun
  constructor
  · rw [hlater]
    exact h.outcome
  · rw [hlater]
    exact h.scene
  · have hmore : (l.wait (ms + 1)).history l.firing.machine s =
        l.tick s ++ (l.wait ms).history l.firing.machine (l.next s) := by
      rw [tick, ← hcalls, List.append_assoc (l.readings s ++ _)]
      exact hhistory
    have hfirst : l.found 0 s = s := rfl
    rw [hmore, h.history, found_succ, List.range_succ_eq_map, List.flatMap_cons, List.flatMap_map, hfirst]
    simp only [List.append_assoc, Nat.succ_eq_add_one, found_succ]

/-- A wait whose looks are silent ends as what is left of it does. -/
theorem Ended.after {result : WaitEnd} (h : l.Ended (l.found t s) ms result 0)
    (hsilent : ∀ u < t, l.Silent (l.found u s)) : l.Ended s (ms + t) result t := by
  induction t generalizing s with
  | zero => exact h
  | succ t ih =>
    have hrest : ∀ u < t, l.Silent (l.found u (l.next s)) := fun u hu => hsilent (u + 1) (by omega)
    exact (ih h hrest).later (hsilent 0 (by omega))

end LineWait

end Diskette
