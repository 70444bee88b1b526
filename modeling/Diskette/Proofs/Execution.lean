import Diskette.Proofs.Surroundings

/-!
Runs of programs in surroundings that may give any reply: what was called, what was answered, and
how the program ended. A listener follows a run from call to call.
-/
namespace Diskette

/-- A call and its reply. -/
structure Exchange (I : Interface) where
  call : I.Call
  reply : I.Reply call

abbrev History (I : Interface) := List (Exchange I)

/-- Where a history is cut in two, each exchange is in one of the parts. -/
theorem split_append {I : Interface} {t u before later : History I} {e : Exchange I}
    (h : t ++ u = before ++ e :: later) :
    (∃ rest, t = before ++ e :: rest ∧ later = rest ++ u) ∨ ∃ lead, before = t ++ lead ∧ u = lead ++ e :: later := by
  rcases List.append_eq_append_iff.mp h with ⟨lead, rfl, rfl⟩ | ⟨rest, rfl, hrest⟩
  · exact .inr ⟨lead, rfl, rfl⟩
  · cases rest with
    | nil => exact .inr ⟨[], by simp, hrest.symm⟩
    | cons first rest =>
      obtain ⟨rfl, rfl⟩ := List.cons.inj hrest
      exact .inl ⟨rest, rfl, rfl⟩

inductive Execution {I : Interface} {α : Type} : Program I α → History I → α → Prop
  | done (a : α) : Execution (.done a) [] a
  | call {c : I.Call} {next : I.Reply c → Program I α} {r : I.Reply c} {t : History I} {a : α} :
      Execution (next r) t a → Execution (.call c next) (⟨c, r⟩ :: t) a

/-- What is heard in a run, and the calls that may be made after it. -/
structure Listener (I : Interface) (σ : Type) where
  permits : σ → I.Call → Prop
  hear : σ → Exchange I → σ

namespace Listener

variable {I : Interface} {σ : Type} (l : Listener I σ)

def after (s : σ) (t : History I) : σ := t.foldl l.hear s

@[simp] theorem after_nil (s : σ) : l.after s [] = s := rfl

@[simp] theorem after_cons (s : σ) (e : Exchange I) (t : History I) :
    l.after s (e :: t) = l.after (l.hear s e) t := rfl

@[simp] theorem after_append (s : σ) (t u : History I) :
    l.after s (t ++ u) = l.after (l.after s t) u := List.foldl_append

/-- Each call of a run is one that may be made. -/
def Accepts (s : σ) (t : History I) : Prop :=
  ∀ before e later, t = before ++ e :: later → l.permits (l.after s before) e.call

theorem accepts_nil (s : σ) : l.Accepts s [] := by
  intro before e later h
  simp at h

theorem accepts_cons {s : σ} {e : Exchange I} {t : History I} :
    l.Accepts s (e :: t) ↔ l.permits s e.call ∧ l.Accepts (l.hear s e) t := by
  constructor
  · intro h
    exact ⟨h [] e t rfl, fun before e' later ht =>
      h (e :: before) e' later (by rw [ht, List.cons_append])⟩
  · rintro ⟨he, ht⟩ before e' later h
    cases before with
    | nil =>
      obtain ⟨rfl, rfl⟩ := List.cons.inj h
      exact he
    | cons first before =>
      obtain ⟨rfl, hrest⟩ := List.cons.inj h
      exact ht before e' later hrest

theorem accepts_append {s : σ} {t u : History I} (ht : l.Accepts s t)
    (hu : l.Accepts (l.after s t) u) : l.Accepts s (t ++ u) := by
  induction t generalizing s with
  | nil => exact hu
  | cons e t ih =>
    obtain ⟨he, ht⟩ := l.accepts_cons.mp ht
    exact l.accepts_cons.mpr ⟨he, ih ht hu⟩

/-- Surroundings that give any reply, with somebody listening. -/
def surroundings : Surroundings I σ := ⟨l.permits, fun s c r s' => s' = l.hear s ⟨c, r⟩⟩

/-- Remembers the whole run. -/
def recorder : Listener I (History I) := ⟨fun _ _ => True, fun t e => t ++ [e]⟩

theorem recorder_after (t u : History I) : recorder.after t u = t ++ u := by
  induction u generalizing t with
  | nil => exact (List.append_nil t).symm
  | cons e u ih =>
    have hrest := ih (t ++ [e])
    rw [List.append_assoc] at hrest
    exact hrest

end Listener

/-- Surroundings that give any reply, with the run recorded. -/
abbrev recorded {I : Interface} : Surroundings I (History I) := Listener.recorder.surroundings

namespace Execution

variable {I : Interface} {α β σ : Type} {p : Program I α} {t : History I}

theorem of_bind {f : α → Program I β} {b : β} (h : Execution (p >>= f) t b) :
    ∃ t₁ t₂ a, t = t₁ ++ t₂ ∧ Execution p t₁ a ∧ Execution (f a) t₂ b := by
  induction p generalizing t with
  | done a => exact ⟨[], t, a, rfl, .done a, h⟩
  | call c next ih =>
    cases h with
    | call h =>
      obtain ⟨t₁, t₂, a, rfl, h₁, h₂⟩ := ih _ h
      exact ⟨_ :: t₁, t₂, a, rfl, .call h₁, h₂⟩

theorem of_operation_bind {op : Operation α} {f : α → Operation β} {t : History Platform} {c c' : Controller}
    {b : β} (h : Execution ((op >>= f).run c) t (b, c')) :
    ∃ t₁ t₂ a c₁, t = t₁ ++ t₂ ∧ Execution (op.run c) t₁ (a, c₁) ∧
      Execution ((f a).run c₁) t₂ (b, c') := by
  obtain ⟨t₁, t₂, ⟨a, c₁⟩, ht, h₁, h₂⟩ := of_bind h
  exact ⟨t₁, t₂, a, c₁, ht, h₁, h₂⟩

theorem of_done {a b : α} (h : Execution (.done a : Program I α) t b) : t = [] ∧ b = a := by
  cases h
  exact ⟨rfl, rfl⟩

theorem of_perform {c : I.Call} {r : I.Reply c} (h : Execution (.call c .done) t r) : t = [⟨c, r⟩] := by
  cases h with
  | call h =>
    obtain ⟨rfl, rfl⟩ := h.of_done
    rfl

/-- What a program ensures with somebody listening is so in each of its runs. -/
theorem heard {l : Listener I σ} {Q : α → σ → Prop} {s : σ} {a : α} (h : Execution p t a)
    (hp : p.Ensures l.surroundings Q s) : l.Accepts s t ∧ Q a (l.after s t) := by
  induction h generalizing s with
  | done a => exact ⟨l.accepts_nil s, hp⟩
  | call _ ih =>
    obtain ⟨hc, hnext⟩ := hp
    obtain ⟨ht, hQ⟩ := ih (hnext _ _ rfl)
    exact ⟨l.accepts_cons.mpr ⟨hc, ht⟩, hQ⟩

/-- What a program ensures of the record is so of it with each of its runs. -/
theorem recorded_after {Q : α → History I → Prop} {u : History I} {a : α} (h : Execution p t a)
    (hp : p.Ensures recorded Q u) : Q a (u ++ t) := by
  have hQ := (h.heard hp).2
  rwa [Listener.recorder_after] at hQ

theorem recorded {Q : α → History I → Prop} {a : α} (h : Execution p t a)
    (hp : p.Ensures recorded Q []) : Q a t := h.recorded_after hp

theorem of_uninterrupted {p : Routine α} {t : History Platform} {a : α} (h : Execution (Platform.uninterrupted p) t a) :
    ∃ wasEnabled u, t = ⟨.suppress, wasEnabled⟩ :: u ++ [⟨.resume wasEnabled, ()⟩] ∧ Execution p u a := by
  obtain ⟨t₁, t₂, wasEnabled, rfl, hsuppress, h⟩ := of_bind h
  obtain ⟨u, t₃, b, rfl, hp, h⟩ := of_bind h
  obtain ⟨t₄, t₅, ⟨⟩, rfl, hresume, h⟩ := of_bind h
  obtain ⟨rfl, rfl⟩ := of_done h
  cases hsuppress with
  | call hsuppress =>
    cases hresume with
    | call hresume =>
      obtain ⟨rfl, rfl⟩ := of_done hsuppress
      obtain ⟨rfl, -⟩ := of_done hresume
      exact ⟨wasEnabled, u, rfl, hp⟩

theorem of_execute {command : Command} {c c' : Controller} {outcome : Except Failure Report} {t : History Platform}
    (h : Execution ((Operation.execute command).run c) t (outcome, c')) :
    ∃ delivered, Execution ((Operation.perform command none).run c) t ((outcome, delivered), c') := by
  obtain ⟨t₁, t₂, ⟨outcome₁, delivered⟩, c₁, rfl, hperform, hdone⟩ := h.of_operation_bind
  obtain ⟨rfl, hresult⟩ := of_done hdone
  obtain ⟨rfl, rfl⟩ := Prod.mk.inj hresult
  rw [List.append_nil]
  exact ⟨delivered, hperform⟩

theorem of_executeWith {command : Command} {transfer : Transfer} {c c' : Controller} {buffer : PayloadBuffer}
    {outcome : Except Failure Report} {t : History Platform}
    (h : Execution ((Operation.executeWith command transfer).run c) t ((outcome, buffer), c')) :
    ∃ delivered, Execution ((Operation.perform command (some transfer)).run c) t ((outcome, delivered), c') ∧
      buffer = transfer.buffer.receive delivered := by
  obtain ⟨t₁, t₂, ⟨outcome₁, delivered⟩, c₁, rfl, hperform, hdone⟩ := h.of_operation_bind
  obtain ⟨rfl, hresult⟩ := of_done hdone
  obtain ⟨hpair, rfl⟩ := Prod.mk.inj hresult
  obtain ⟨rfl, rfl⟩ := Prod.mk.inj hpair
  rw [List.append_nil]
  exact ⟨delivered, hperform, rfl⟩

end Execution

section Latest

variable {I : Interface} {α : Type} {f : Exchange I → Option α} {e : Exchange I} {t u : History I} {a : α}

/-- The last thing that is told in a history, of those that are looked for. -/
def latest (f : Exchange I → Option α) (t : History I) : Option α := (t.filterMap f).getLast?

@[simp] theorem latest_nil : latest f [] = none := rfl

@[simp] theorem latest_append : latest f (t ++ u) = (latest f u).or (latest f t) := by
  simp [latest]

@[simp] theorem latest_cons : latest f (e :: t) = (latest f t).or (f e) := by
  cases htold : f e with
  | none => rw [latest, List.filterMap_cons_none htold, Option.or_none, latest]
  | some a => rw [latest, List.filterMap_cons_some htold, List.getLast?_cons, Option.or_some, latest]

theorem latest_eq_none (h : ∀ e ∈ t, f e = none) : latest f t = none := by
  rw [latest, List.filterMap_eq_nil_iff.mpr h]
  rfl

theorem exists_of_latest (h : latest f t = some a) : ∃ e ∈ t, f e = some a :=
  List.mem_filterMap.mp (List.mem_of_getLast? h)

end Latest

namespace Program

variable {I : Interface} {α σ : Type} {p : Program I α}

/-- The record of a program grows by calls that it may make. -/
theorem Only.recorded {φ : I.Call → Prop} (h : p.Only φ) (t : History I) :
    p.Ensures recorded (fun _ t' => ∃ u, t' = t ++ u ∧ ∀ e ∈ u, φ e.call) t := by
  refine h.ensures (K := fun t' => ∃ u, t' = t ++ u ∧ ∀ e ∈ u, φ e.call) ?_ ⟨[], by simp⟩
  rintro s c hc ⟨u, rfl, hu⟩
  refine ⟨trivial, ?_⟩
  rintro r s' rfl
  refine ⟨u ++ [⟨c, r⟩], List.append_assoc .., ?_⟩
  simpa [or_imp, forall_and] using ⟨hu, hc⟩

/-- A program only makes calls that it may make. -/
theorem Only.execution {φ : I.Call → Prop} {t : History I} {a : α} (h : p.Only φ) (hexec : Execution p t a) :
    ∀ e ∈ t, φ e.call := by
  obtain ⟨u, rfl, hu⟩ := hexec.recorded (h.recorded [])
  exact hu

/-- The record of a program grows by a run of it. -/
theorem ensures_execution (p : Program I α) (t : History I) :
    p.Ensures Diskette.recorded (fun a t' => ∃ u, t' = t ++ u ∧ Execution p u a) t := by
  induction p generalizing t with
  | done a => exact ⟨[], by simp, .done a⟩
  | call c next ih =>
    refine ⟨trivial, ?_⟩
    rintro r _ rfl
    refine (ih r (t ++ [⟨c, r⟩])).mono ?_
    rintro a _ ⟨u, rfl, hu⟩
    exact ⟨⟨c, r⟩ :: u, by simp, .call hu⟩

theorem ensures_recorded {c : I.Call} {next : I.Reply c → Program I α} {Q : α → History I → Prop}
    {t : History I} : (call c next).Ensures Diskette.recorded Q t ↔
      ∀ r, (next r).Ensures Diskette.recorded Q (t ++ [⟨c, r⟩]) := by
  constructor
  · exact fun h r => h.2 r _ rfl
  · intro h
    refine ⟨trivial, ?_⟩
    rintro r t' rfl
    exact h r

/-- What a machine and a program say to each other. -/
def history (m : Machine I σ) : Program I α → σ → History I
  | done _, _ => []
  | call c next, s => ⟨c, (m.step c s).1⟩ :: (next (m.step c s).1).history m (m.step c s).2

/-- Every run on a machine is one of those considered here. -/
theorem execution_run (m : Machine I σ) (p : Program I α) (s : σ) :
    Execution p (p.history m s) (p.run m s).1 := by
  induction p generalizing s with
  | done a => exact .done a
  | call c next ih => exact .call (ih _ _)

end Program

/-- What comes of a program whatever it is answered comes of it in surroundings that stand it. -/
theorem Program.Ensures.yields {I : Interface} {α σ : Type} {E : Surroundings I σ} {p : Program I α} {s : σ}
    {t : History I} {Q : α → Prop} {R : α → σ → Prop} (h : p.Ensures E R s)
    (hQ : p.Ensures recorded (fun a _ => Q a) t) : p.Ensures E (fun a s' => Q a ∧ R a s') s := by
  induction p generalizing s t with
  | done a => exact ⟨hQ, h⟩
  | call c next ih => exact ⟨h.1, fun r s' hs => ih r (h.2 r s' hs) (hQ.2 r _ rfl)⟩

theorem Operation.Ensures.yields {α σ : Type} {E : Surroundings Platform σ} {op : Operation α} {c : Controller}
    {s : σ} {t : History Platform} {Q : α → Controller → Prop} {R : α → Controller → σ → Prop} (h : Operation.Ensures E op R c s)
    (hQ : Operation.Ensures recorded op (fun a c' _ => Q a c') c t) :
    Operation.Ensures E op (fun a c' s' => Q a c' ∧ R a c' s') c s :=
  Program.Ensures.yields (Q := fun r : α × Controller => Q r.1 r.2) h hQ

end Diskette
