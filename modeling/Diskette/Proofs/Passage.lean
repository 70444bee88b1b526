import Diskette.Proofs.Execution

/-!
Runs of programs in surroundings that have a state of their own: each call with the state it was made in,
and the state that the run has led to. What a program ensures is so of each of them.
-/
namespace Diskette

/-- A call with its reply, and the state that it was made in. -/
structure Moment (I : Interface) (σ : Type) where
  state : σ
  exchange : Exchange I

/-- The runs of a program where the states and replies follow each other in a certain way. -/
inductive Passage {I : Interface} {σ α : Type} (follows : σ → (c : I.Call) → I.Reply c → σ → Prop) :
    Program I α → σ → List (Moment I σ) → α → σ → Prop
  | done (a : α) (s : σ) : Passage follows (.done a) s [] a s
  | call {c : I.Call} {next : I.Reply c → Program I α} {r : I.Reply c} {s s' s'' : σ}
      {ms : List (Moment I σ)} {a : α} : follows s c r s' → Passage follows (next r) s' ms a s'' →
      Passage follows (.call c next) s (⟨s, c, r⟩ :: ms) a s''

variable {I : Interface} {α σ τ : Type} {E : Surroundings I σ} {p : Program I α} {s s' : σ}
  {ms : List (Moment I σ)} {a : α}

/-- The moment of an exchange, in the midst of others. -/
theorem exists_moment_of_map {u v : List (Exchange I)} {e : Exchange I} (h : ms.map (·.exchange) = u ++ e :: v) :
    ∃ before m after, ms = before ++ m :: after ∧ before.map (·.exchange) = u ∧ m.exchange = e ∧
      after.map (·.exchange) = v := by
  obtain ⟨before, rest, rfl, hbefore, hrest⟩ := List.map_eq_append_iff.mp h
  obtain ⟨m, after, rfl, hm, hafter⟩ := List.map_eq_cons_iff.mp hrest
  exact ⟨before, m, after, rfl, hbefore, hm, hafter⟩

/-- In surroundings that stand a program, each call of a run of it is one they permit. -/
theorem Program.Ensures.passage {Q : α → σ → Prop} (hp : p.Ensures E Q s)
    (h : Passage E.follows p s ms a s') : (∀ x ∈ ms, E.permits x.state x.exchange.call) ∧ Q a s' := by
  induction h with
  | done a s => exact ⟨by simp, hp⟩
  | call hfollows _ ih =>
    obtain ⟨hpermits, hnext⟩ := hp
    obtain ⟨hrest, hQ⟩ := ih (hnext _ _ hfollows)
    refine ⟨?_, hQ⟩
    intro x hx
    rcases List.mem_cons.mp hx with rfl | hx
    · exact hpermits
    · exact hrest x hx

/-- What is called and answered in a passage is a run of the program. -/
theorem Passage.execution {I : Interface} {σ : Type} {follows : σ → (c : I.Call) → I.Reply c → σ → Prop}
    {p : Program I α} {s s' : σ} {ms : List (Moment I σ)} {a : α} (h : Passage follows p s ms a s') :
    Execution p (ms.map (·.exchange)) a := by
  induction h with
  | done a s => exact .done a
  | call _ _ ih => exact .call ih

/-- Two stretches of time that meet make one. -/
theorem pairwise_meet {R : σ → σ → Prop} (htrans : ∀ a b c, R a b → R b c → R a c) {l l' : List σ} {a : σ}
    (h : (l ++ [a]).Pairwise R) (h' : (a :: l').Pairwise R) : (l ++ a :: l').Pairwise R := by
  obtain ⟨hl, -, hend⟩ := List.pairwise_append.mp h
  refine List.pairwise_append.mpr ⟨hl, h', fun x hx y hy => ?_⟩
  have hxa : R x a := hend x hx a (List.mem_singleton.mpr rfl)
  rcases List.mem_cons.mp hy with rfl | hy
  · exact hxa
  · exact htrans x a y hxa (List.rel_of_pairwise_cons h' hy)

/-- What each step leads on to is led on to throughout. -/
theorem Passage.pairwise {follows : σ → (c : I.Call) → I.Reply c → σ → Prop} {R : σ → σ → Prop}
    (hrefl : ∀ s, R s s) (htrans : ∀ a b c, R a b → R b c → R a c)
    (hstep : ∀ s c r s', follows s c r s' → R s s') (h : Passage follows p s ms a s') :
    (ms.map (·.state) ++ [s']).Pairwise R ∧ ∀ x ∈ ms.map (·.state) ++ [s'], R s x := by
  induction h with
  | done a s => simp [hrefl]
  | @call c next r s s₁ s' ms a hfollows hrest ih =>
    obtain ⟨hpairwise, hlater⟩ := ih
    have hall : ∀ x ∈ ms.map (·.state) ++ [s'], R s x :=
      fun x hx => htrans s s₁ x (hstep _ _ _ _ hfollows) (hlater x hx)
    refine ⟨List.pairwise_cons.mpr ⟨hall, hpairwise⟩, ?_⟩
    intro x hx
    rcases List.mem_cons.mp hx with rfl | hx
    · exact hrefl _
    · exact hall x hx

/-- What is left of a run after some calls is the run of some program. -/
theorem Passage.suffix {follows : σ → (c : I.Call) → I.Reply c → σ → Prop} {later : List (Moment I σ)}
    (h : Passage follows p s (ms ++ later) a s') : ∃ q s₁, Passage follows q s₁ later a s' := by
  induction ms generalizing p s with
  | nil => exact ⟨p, s, h⟩
  | cons m ms ih =>
    cases h with
    | call _ h => exact ih h

/-- Each moment of a run leads on to the next one. -/
theorem Passage.moment {follows : σ → (c : I.Call) → I.Reply c → σ → Prop} {m : Moment I σ}
    {later : List (Moment I σ)} (h : Passage follows p s (ms ++ m :: later) a s') :
    ∃ q s₁, follows m.state m.exchange.call m.exchange.reply s₁ ∧ Passage follows q s₁ later a s' := by
  obtain ⟨q, s₁, hrest⟩ := h.suffix
  cases hrest with
  | call hfollows hlater => exact ⟨_, _, hfollows, hlater⟩

/-- The calls that a machine answers, with what can be seen of its state when they are made. -/
def Program.moments (m : Machine I τ) (view : τ → σ) : Program I α → τ → List (Moment I σ)
  | done _, _ => []
  | call c next, t => ⟨view t, c, (m.step c t).1⟩ :: (next (m.step c t).1).moments m view (m.step c t).2

theorem Program.exchange_moments (m : Machine I τ) (view : τ → σ) (p : Program I α) (t : τ) :
    (p.moments m view t).map (·.exchange) = p.history m t := by
  induction p generalizing t with
  | done a => rfl
  | call c next ih => exact congrArg _ (ih _ _)

/-- A machine that keeps to its surroundings runs through one of these. -/
theorem Machine.KeepsTo.passage_moments {m : Machine I τ} {view : τ → σ} (hm : m.KeepsTo E view)
    (p : Program I α) (t : τ) :
    Passage E.follows p (view t) (p.moments m view t) (p.run m t).1 (view (p.run m t).2) := by
  induction p generalizing t with
  | done a => exact .done a _
  | call c next ih => exact .call (hm c t) (ih _ _)

theorem Machine.KeepsTo.passage {m : Machine I τ} {view : τ → σ} (hm : m.KeepsTo E view)
    (p : Program I α) (t : τ) :
    ∃ ms, Passage E.follows p (view t) ms (p.run m t).1 (view (p.run m t).2) :=
  ⟨_, hm.passage_moments p t⟩

end Diskette
