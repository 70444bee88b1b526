import Diskette.Controller.BringUp
import Diskette.Controller.Execute

/-!
Programs in surroundings of which not everything is known. Surroundings say which calls they stand
in a state, and which replies and states may follow; a program ensures a condition if it makes no
other calls, and every run of it ends in the condition. Each layer of the driver has its own form
of this, and one rule for each way of putting programs together.
-/
namespace Diskette

structure Surroundings (I : Interface) (σ : Type) where
  permits : σ → I.Call → Prop
  follows : σ → (c : I.Call) → I.Reply c → σ → Prop

/-- Each step of the machine, as far as a view of its state shows it, is one that may follow. -/
def Machine.KeepsTo {I : Interface} {σ τ : Type} (m : Machine I τ) (E : Surroundings I σ)
    (view : τ → σ) : Prop :=
  ∀ c t, E.follows (view t) c (m.step c t).1 (view (m.step c t).2)

namespace Program

variable {I : Interface} {α β σ : Type} {E : Surroundings I σ} {p : Program I α}
  {Q R : α → σ → Prop} {s : σ}

def Ensures (E : Surroundings I σ) : Program I α → (α → σ → Prop) → σ → Prop
  | done a, Q, s => Q a s
  | call c next, Q, s =>
    E.permits s c ∧ ∀ r s', E.follows s c r s' → (next r).Ensures E Q s'

@[simp] theorem ensures_done {a : α} : (done a : Program I α).Ensures E Q s ↔ Q a s := Iff.rfl

theorem ensures_call {c : I.Call} {next : I.Reply c → Program I α} :
    (call c next).Ensures E Q s ↔
      E.permits s c ∧ ∀ r s', E.follows s c r s' → (next r).Ensures E Q s' := Iff.rfl

@[simp] theorem ensures_bind {f : α → Program I β} {Q : β → σ → Prop} :
    (p >>= f).Ensures E Q s ↔ p.Ensures E (fun a s' => (f a).Ensures E Q s') s := by
  induction p generalizing s with
  | done a => exact Iff.rfl
  | call c next ih => simp only [call_bind, ensures_call, ih]

@[simp] theorem ensures_ite {b : Prop} [Decidable b] {q : Program I α} :
    (if b then p else q).Ensures E Q s ↔ if b then p.Ensures E Q s else q.Ensures E Q s := by
  split <;> rfl

theorem Ensures.mono (h : p.Ensures E Q s) (hQ : ∀ a s', Q a s' → R a s') : p.Ensures E R s := by
  induction p generalizing s with
  | done a => exact hQ a s h
  | call c next ih => exact ⟨h.1, fun r s' hs => ih r (h.2 r s' hs)⟩

/-- A step that can fail, and what follows if it does not. -/
theorem ensures_run_bind {ε : Type} {x : ExceptT ε (Program I) α}
    {f : α → ExceptT ε (Program I) β} {Q : Except ε β → σ → Prop} :
    Ensures E (x >>= f).run Q s ↔ Ensures E x.run (fun r s' => match r with
      | .ok a => Ensures E (f a).run Q s'
      | .error e => Q (.error e) s') s := by
  rw [ExceptT.run_bind, ensures_bind]
  constructor <;> intro h <;> refine Ensures.mono h ?_ <;>
    rintro (e | a) s' hr <;> exact hr

theorem Ensures.and (hQ : p.Ensures E Q s) (hR : p.Ensures E R s) :
    p.Ensures E (fun a s' => Q a s' ∧ R a s') s := by
  induction p generalizing s with
  | done a => exact ⟨hQ, hR⟩
  | call c next ih => exact ⟨hQ.1, fun r s' hs => ih r (hQ.2 r s' hs) (hR.2 r s' hs)⟩

/-- What a program ensures where less is seen of the state is so where more is seen. -/
theorem Ensures.seen {τ : Type} {E' : Surroundings I τ} {view : τ → σ} {R : α → τ → Prop} {t : τ}
    (hview : ∀ t c r t', E'.follows t c r t' → E.follows (view t) c r (view t'))
    (h : p.Ensures E Q (view t)) (h' : p.Ensures E' R t) :
    p.Ensures E' (fun a t' => Q a (view t') ∧ R a t') t := by
  induction p generalizing t with
  | done a => exact ⟨h, h'⟩
  | call c next ih =>
    obtain ⟨-, hnext⟩ := h
    obtain ⟨hpermits, hnext'⟩ := h'
    exact ⟨hpermits, fun r t' ht' => ih r (hnext r _ (hview t c r t' ht')) (hnext' r t' ht')⟩

theorem Ensures.run {τ : Type} {m : Machine I τ} {view : τ → σ} (hm : m.KeepsTo E view) {t : τ}
    (h : p.Ensures E Q (view t)) : Q (p.run m t).1 (view (p.run m t).2) := by
  induction p generalizing t with
  | done a => exact h
  | call c next ih => exact ih _ (h.2 _ _ (hm c t))

/-- Surroundings that stand some calls and answer them in any way. -/
def admitting (φ : I.Call → Prop) : Surroundings I Unit := ⟨fun _ c => φ c, fun _ _ _ _ => True⟩

/-- Whatever the replies, the program makes no other calls. -/
def Only (φ : I.Call → Prop) (p : Program I α) : Prop :=
  p.Ensures (admitting φ) (fun _ _ => True) ()

namespace Only

variable {φ ψ : I.Call → Prop}

theorem done {a : α} : (done a : Program I α).Only φ := trivial

theorem perform {c : I.Call} (h : φ c) : (Program.call c Program.done).Only φ :=
  ⟨h, fun _ _ _ => trivial⟩

theorem bind {f : α → Program I β} (h : p.Only φ) (hf : ∀ a, (f a).Only φ) :
    (p >>= f).Only φ := by
  unfold Only
  rw [ensures_bind]
  exact Ensures.mono h fun a _ _ => hf a

theorem run_bind {ε : Type} {x : ExceptT ε (Program I) α} {f : α → ExceptT ε (Program I) β}
    (h : x.run.Only φ) (hf : ∀ a, (f a).run.Only φ) : (x >>= f).run.Only φ := by
  refine ensures_run_bind.mpr (Ensures.mono h ?_)
  rintro (e | a) - -
  · trivial
  · exact hf a

theorem ite {b : Prop} [Decidable b] {q : Program I α} (h : p.Only φ) (h' : q.Only φ) :
    (if b then p else q).Only φ := by
  split
  · exact h
  · exact h'

theorem mono (h : p.Only φ) (hφ : ∀ c, φ c → ψ c) : p.Only ψ := by
  induction p with
  | done a => trivial
  | call c next ih => exact ⟨hφ c h.1, fun r s hs => ih r (h.2 r s hs)⟩

end Only

theorem only_true (p : Program I α) : p.Only fun _ => True := by
  induction p with
  | done a => trivial
  | call c next ih => exact ⟨trivial, fun r _ _ => ih r⟩

theorem Only.ensures {φ : I.Call → Prop} (h : p.Only φ) {K : σ → Prop}
    (hK : ∀ s c, φ c → K s → E.permits s c ∧ ∀ r s', E.follows s c r s' → K s') (hs : K s) :
    p.Ensures E (fun _ => K) s := by
  induction p generalizing s with
  | done a => exact hs
  | call c next ih =>
    obtain ⟨hc, hnext⟩ := h
    obtain ⟨hp, hf⟩ := hK s c hc hs
    exact ⟨hp, fun r s' hs' => ih r (hnext r () trivial) (hf r s' hs')⟩

end Program

variable {α β σ : Type} {E : Surroundings Platform σ} {c : Controller} {s : σ}

def Operation.Ensures (E : Surroundings Platform σ) (op : Operation α)
    (Q : α → Controller → σ → Prop) (c : Controller) (s : σ) : Prop :=
  (StateT.run op c).Ensures E (fun r s' => Q r.1 r.2 s') s

namespace Operation

variable {op : Operation α} {Q R : α → Controller → σ → Prop}

theorem Ensures.mono (h : Operation.Ensures E op Q c s)
    (hQ : ∀ a c' s', Q a c' s' → R a c' s') : Operation.Ensures E op R c s :=
  Program.Ensures.mono h fun r s' => hQ r.1 r.2 s'

theorem Ensures.and (hQ : Operation.Ensures E op Q c s) (hR : Operation.Ensures E op R c s) :
    Operation.Ensures E op (fun a c' s' => Q a c' s' ∧ R a c' s') c s :=
  Program.Ensures.and hQ hR

@[simp] theorem ensures_pure {a : α} : Operation.Ensures E (pure a) Q c s ↔ Q a c s := Iff.rfl

@[simp] theorem ensures_bind {f : α → Operation β} {Q : β → Controller → σ → Prop} :
    Operation.Ensures E (op >>= f) Q c s ↔
      Operation.Ensures E op (fun a c' s' => Operation.Ensures E (f a) Q c' s') c s :=
  Program.ensures_bind

@[simp] theorem ensures_map {f : α → β} {Q : β → Controller → σ → Prop} :
    Operation.Ensures E (f <$> op) Q c s ↔
      Operation.Ensures E op (fun a c' s' => Q (f a) c' s') c s := by
  rw [map_eq_pure_bind]
  exact ensures_bind

@[simp] theorem ensures_ite {b : Prop} [Decidable b] {op' : Operation α} :
    Operation.Ensures E (if b then op else op') Q c s ↔
      if b then Operation.Ensures E op Q c s else Operation.Ensures E op' Q c s := by
  split <;> rfl

@[simp] theorem ensures_lift {p : Routine α} :
    Operation.Ensures E (liftM p) Q c s ↔ p.Ensures E (fun a s' => Q a c s') s :=
  Program.ensures_bind

@[simp] theorem ensures_get {Q : Controller → Controller → σ → Prop} :
    Operation.Ensures E get Q c s ↔ Q c c s := Iff.rfl

@[simp] theorem ensures_modify {Q : Unit → Controller → σ → Prop} {f : Controller → Controller} :
    Operation.Ensures E (modify f) Q c s ↔ Q () (f c) s := Iff.rfl

@[simp] theorem ensures_takePrior {Q : Option Handler → Controller → σ → Prop} :
    Operation.Ensures E takePrior Q c s ↔ Q c.prior { c with prior := none } s := Iff.rfl

@[simp] theorem ensures_setPhase {Q : Unit → Controller → σ → Prop} {phase : Phase} :
    Operation.Ensures E (setPhase phase) Q c s ↔ Q () { c with phase } s := Iff.rfl

@[simp] theorem ensures_log {Q : Unit → Controller → σ → Prop} {event : Log.Event} :
    Operation.Ensures E (log event) Q c s ↔
      (Platform.log c.base event).Ensures E (fun _ s' => Q () c s') s := ensures_lift

@[simp] theorem ensures_shadowed {Q : Unit → Controller → σ → Prop}
    {change : Shadow → Routine Shadow} :
    Operation.Ensures E (shadowed change) Q c s ↔
      (change c.shadow).Ensures E (fun shadow s' => Q () { c with shadow } s') s :=
  ensures_bind.trans (ensures_bind.trans ensures_lift)

end Operation

/-- The first condition holds at the end of an attempt that goes well, the second one after a
failure. -/
def Attempt.Ensures (E : Surroundings Platform σ) (a : Attempt α)
    (Q : α → Controller → σ → Prop) (F : Failure → Controller → σ → Prop)
    (c : Controller) (s : σ) : Prop :=
  Operation.Ensures E a.run (fun r c' s' => match r with
    | .ok x => Q x c' s'
    | .error cause => F cause c' s') c s

namespace Attempt

variable {a : Attempt α} {Q R : α → Controller → σ → Prop} {F G : Failure → Controller → σ → Prop}

theorem Ensures.mono (h : Attempt.Ensures E a Q F c s) (hQ : ∀ x c' s', Q x c' s' → R x c' s')
    (hF : ∀ cause c' s', F cause c' s' → G cause c' s') : Attempt.Ensures E a R G c s := by
  apply Operation.Ensures.mono h
  intro r c' s' hr
  cases r with
  | ok x => exact hQ x c' s' hr
  | error cause => exact hF cause c' s' hr

theorem Ensures.and (h : Attempt.Ensures E a Q F c s) (h' : Attempt.Ensures E a R G c s) :
    Attempt.Ensures E a (fun x c' s' => Q x c' s' ∧ R x c' s') (fun cause c' s' => F cause c' s' ∧ G cause c' s')
      c s := by
  apply (Operation.Ensures.and h h').mono
  rintro (cause | x) c' s' hr
  · exact hr
  · exact hr

@[simp] theorem ensures_pure {x : α} : Attempt.Ensures E (pure x) Q F c s ↔ Q x c s := Iff.rfl

@[simp] theorem ensures_throw {cause : Failure} :
    Attempt.Ensures E (throw cause) Q F c s ↔ F cause c s := Iff.rfl

@[simp] theorem ensures_bind {f : α → Attempt β} {Q : β → Controller → σ → Prop} :
    Attempt.Ensures E (a >>= f) Q F c s ↔
      Attempt.Ensures E a (fun x c' s' => Attempt.Ensures E (f x) Q F c' s') F c s := by
  unfold Attempt.Ensures
  simp only [ExceptT.run_bind, Operation.ensures_bind]
  constructor <;> intro h <;> refine Operation.Ensures.mono h ?_ <;>
    rintro (cause | x) c' s' hr <;> exact hr

@[simp] theorem ensures_ite {b : Prop} [Decidable b] {a' : Attempt α} :
    Attempt.Ensures E (if b then a else a') Q F c s ↔
      if b then Attempt.Ensures E a Q F c s else Attempt.Ensures E a' Q F c s := by
  split <;> rfl

@[simp] theorem ensures_operation {op : Operation α} :
    Attempt.Ensures E (liftM op) Q F c s ↔ Operation.Ensures E op Q c s :=
  Operation.ensures_map (f := Except.ok)

@[simp] theorem ensures_lift {p : Routine α} :
    Attempt.Ensures E (liftM p) Q F c s ↔ p.Ensures E (fun x s' => Q x c s') s :=
  (Operation.ensures_map (f := Except.ok)).trans Operation.ensures_lift

@[simp] theorem ensures_of {p : Routine (Except Failure α)} :
    Attempt.Ensures E (Attempt.of p) Q F c s ↔ p.Ensures E (fun r s' => match r with
      | .ok x => Q x c s'
      | .error cause => F cause c s') s :=
  Operation.ensures_lift

@[simp] theorem ensures_get {Q : Controller → Controller → σ → Prop} :
    Attempt.Ensures E get Q F c s ↔ Q c c s := Iff.rfl

@[simp] theorem ensures_getThe {Q : Controller → Controller → σ → Prop} :
    Attempt.Ensures E (getThe Controller) Q F c s ↔ Q c c s := Iff.rfl

@[simp] theorem ensures_modify {Q : Unit → Controller → σ → Prop} {f : Controller → Controller} :
    Attempt.Ensures E (modifyThe Controller f) Q F c s ↔ Q () (f c) s := Iff.rfl

@[simp] theorem ensures_ofExcept {r : Except Failure α} :
    Attempt.Ensures E (MonadExcept.ofExcept r) Q F c s ↔ match r with
      | .ok x => Q x c s
      | .error cause => F cause c s := by
  cases r <;> exact Iff.rfl

@[simp] theorem ensures_setPhase {Q : Unit → Controller → σ → Prop} {phase : Phase} :
    Attempt.Ensures E (liftM (Operation.setPhase phase)) Q F c s ↔ Q () { c with phase } s :=
  ensures_operation

/-- An attempt whose outcome an operation looks at. -/
@[simp] theorem ensures_run {Q : Except Failure α → Controller → σ → Prop} :
    Operation.Ensures E a.run Q c s ↔
      Attempt.Ensures E a (fun x => Q (.ok x)) (fun cause => Q (.error cause)) c s := by
  constructor <;> intro h <;> refine Operation.Ensures.mono h ?_ <;>
    rintro (cause | x) c' s' hr <;> exact hr

end Attempt

/-- Like `Attempt.Ensures`, with the bytes handed over so far. -/
def Delivery.Ensures (E : Surroundings Platform σ) (d : Delivery α)
    (Q : α → List UInt8 → Controller → σ → Prop)
    (F : Failure → List UInt8 → Controller → σ → Prop)
    (taken : List UInt8) (c : Controller) (s : σ) : Prop :=
  Operation.Ensures E (d.run.run taken) (fun r c' s' => match r.1 with
    | .ok x => Q x r.2 c' s'
    | .error cause => F cause r.2 c' s') c s

namespace Delivery

variable {d : Delivery α} {Q R : α → List UInt8 → Controller → σ → Prop}
  {F G : Failure → List UInt8 → Controller → σ → Prop} {taken : List UInt8}

theorem Ensures.mono (h : Delivery.Ensures E d Q F taken c s)
    (hQ : ∀ x l c' s', Q x l c' s' → R x l c' s')
    (hF : ∀ cause l c' s', F cause l c' s' → G cause l c' s') :
    Delivery.Ensures E d R G taken c s := by
  apply Operation.Ensures.mono h
  rintro ⟨r, l⟩ c' s' hr
  cases r with
  | ok x => exact hQ x l c' s' hr
  | error cause => exact hF cause l c' s' hr

@[simp] theorem ensures_pure {x : α} :
    Delivery.Ensures E (pure x) Q F taken c s ↔ Q x taken c s := Iff.rfl

@[simp] theorem ensures_throw {cause : Failure} :
    Delivery.Ensures E (throw cause) Q F taken c s ↔ F cause taken c s := Iff.rfl

@[simp] theorem ensures_bind {f : α → Delivery β} {Q : β → List UInt8 → Controller → σ → Prop} :
    Delivery.Ensures E (d >>= f) Q F taken c s ↔
      Delivery.Ensures E d (fun x l c' s' => Delivery.Ensures E (f x) Q F l c' s') F taken c s := by
  unfold Delivery.Ensures
  simp only [ExceptT.run_bind, StateT.run_bind, Operation.ensures_bind]
  constructor <;> intro h <;> refine Operation.Ensures.mono h ?_ <;>
    rintro ⟨cause | x, l⟩ c' s' hr <;> exact hr

@[simp] theorem ensures_ite {b : Prop} [Decidable b] {d' : Delivery α} :
    Delivery.Ensures E (if b then d else d') Q F taken c s ↔
      if b then Delivery.Ensures E d Q F taken c s else Delivery.Ensures E d' Q F taken c s := by
  split <;> rfl

@[simp] theorem ensures_attempt {a : Attempt α} :
    Delivery.Ensures E (.attempt a) Q F taken c s ↔
      Attempt.Ensures E a (fun x => Q x taken) (fun cause => F cause taken) c s :=
  Operation.ensures_bind

@[simp] theorem ensures_deliver {Q : Unit → List UInt8 → Controller → σ → Prop}
    {bytes : List UInt8} : Delivery.Ensures E (.deliver bytes) Q F taken c s ↔ Q () bytes c s :=
  Iff.rfl

@[simp] theorem ensures_operation {op : Operation α} :
    Delivery.Ensures E (liftM op) Q F taken c s ↔
      Operation.Ensures E op (fun x c' s' => Q x taken c' s') c s := by
  change Operation.Ensures E (StateT.run (Except.ok <$> StateT.lift op) taken) _ c s ↔ _
  simp only [StateT.run_map, StateT.run_lift, Operation.ensures_map, Operation.ensures_bind,
    Operation.ensures_pure]

@[simp] theorem ensures_lift {p : Routine α} :
    Delivery.Ensures E (liftM p) Q F taken c s ↔ p.Ensures E (fun x s' => Q x taken c s') s := by
  change Delivery.Ensures E (liftM (liftM p : Operation α)) Q F taken c s ↔ _
  exact ensures_operation.trans Operation.ensures_lift

@[simp] theorem ensures_getThe {Q : Controller → List UInt8 → Controller → σ → Prop} :
    Delivery.Ensures E (getThe Controller) Q F taken c s ↔ Q c taken c s := Iff.rfl

/-- A delivery whose outcome an operation looks at. -/
@[simp] theorem ensures_run {Q : Except Failure α × List UInt8 → Controller → σ → Prop} :
    Operation.Ensures E (d.run taken) Q c s ↔
      Delivery.Ensures E d (fun x l => Q (.ok x, l)) (fun cause l => Q (.error cause, l))
        taken c s := by
  constructor <;> intro h <;> refine Operation.Ensures.mono h ?_ <;>
    rintro ⟨cause | x, l⟩ c' s' hr <;> exact hr

end Delivery
end Diskette
