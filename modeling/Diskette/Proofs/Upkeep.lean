import Diskette.Proofs.Surroundings

/-!
Upkeep of a condition on the controller and its surroundings. What is put together of operations that
keep it keeps it too. An attempt keeps it when it goes well, and leaves another one after a failure.
-/
namespace Diskette

variable {α β σ : Type} {E : Surroundings Platform σ} {K : Controller → σ → Prop} {F : Failure → Controller → σ → Prop}

def Operation.Keeps (E : Surroundings Platform σ) (K : Controller → σ → Prop)
    (op : Operation α) : Prop :=
  ∀ c s, K c s → Operation.Ensures E op (fun _ => K) c s

def Attempt.Keeps (E : Surroundings Platform σ) (K : Controller → σ → Prop)
    (F : Failure → Controller → σ → Prop) (a : Attempt α) : Prop :=
  ∀ c s, K c s → Attempt.Ensures E a (fun _ => K) F c s

def Delivery.Keeps (E : Surroundings Platform σ) (K : Controller → σ → Prop)
    (F : Failure → Controller → σ → Prop) (d : Delivery α) : Prop :=
  ∀ taken c s, K c s → Delivery.Ensures E d (fun _ _ => K) (fun cause _ => F cause) taken c s

namespace Operation.Keeps

variable {op : Operation α}

theorem pure {a : α} : Operation.Keeps E K (pure a : Operation α) := fun _ _ h => h

theorem bind {f : α → Operation β} (h : Operation.Keeps E K op)
    (hf : ∀ a, Operation.Keeps E K (f a)) : Operation.Keeps E K (op >>= f) := by
  intro c s hK
  rw [Operation.ensures_bind]
  exact (h c s hK).mono fun a c' s' => hf a c' s'

theorem ite {b : Prop} [Decidable b] {op' : Operation α} (h : b → Operation.Keeps E K op)
    (h' : ¬b → Operation.Keeps E K op') : Operation.Keeps E K (if b then op else op') := by
  split
  · exact h ‹_›
  · exact h' ‹_›

theorem get_bind {f : Controller → Operation β}
    (h : ∀ c s, K c s → Operation.Ensures E (f c) (fun _ => K) c s) :
    Operation.Keeps E K (get >>= f) := h

theorem modify {f : Controller → Controller} (h : ∀ c s, K c s → K (f c) s) :
    Operation.Keeps E K (modify f) := h

theorem lift {p : Routine α} (h : ∀ c s, K c s → p.Ensures E (fun _ => K c) s) :
    Operation.Keeps E K (liftM p) := by
  intro c s hK
  rw [Operation.ensures_lift]
  exact h c s hK

theorem run {a : Attempt α} (h : Attempt.Keeps E K (fun _ => K) a) :
    Operation.Keeps E K a.run := by
  intro c s hK
  rw [Attempt.ensures_run]
  exact h c s hK

end Operation.Keeps

namespace Attempt.Keeps

variable {a : Attempt α}

theorem pure {x : α} : Attempt.Keeps E K F (pure x : Attempt α) := fun _ _ h => h

theorem throw {cause : Failure} (h : ∀ c s, K c s → F cause c s) :
    Attempt.Keeps E K F (throw cause : Attempt α) := h

theorem bind {f : α → Attempt β} (h : Attempt.Keeps E K F a)
    (hf : ∀ x, Attempt.Keeps E K F (f x)) : Attempt.Keeps E K F (a >>= f) := by
  intro c s hK
  rw [Attempt.ensures_bind]
  exact (h c s hK).mono (fun x c' s' => hf x c' s') fun _ _ _ => id

theorem get_bind {f : Controller → Attempt β}
    (h : ∀ c s, K c s → Attempt.Ensures E (f c) (fun _ => K) F c s) :
    Attempt.Keeps E K F (getThe Controller >>= f) := by
  intro c s hK
  rw [Attempt.ensures_bind]
  exact h c s hK

theorem modify {f : Controller → Controller} (h : ∀ c s, K c s → K (f c) s) :
    Attempt.Keeps E K F (modifyThe Controller f) := h

theorem operation {op : Operation α} (h : Operation.Keeps E K op) :
    Attempt.Keeps E K F (liftM op) := by
  intro c s hK
  rw [Attempt.ensures_operation]
  exact h c s hK

theorem lift {p : Routine α} (h : ∀ c s, K c s → p.Ensures E (fun _ => K c) s) :
    Attempt.Keeps E K F (liftM p) := by
  intro c s hK
  rw [Attempt.ensures_lift]
  exact h c s hK

theorem of {p : Routine (Except Failure α)}
    (h : ∀ c s, K c s → p.Ensures E (fun r s' => match r with
      | .ok _ => K c s'
      | .error cause => F cause c s') s) :
    Attempt.Keeps E K F (Attempt.of p) := by
  intro c s hK
  rw [Attempt.ensures_of]
  exact h c s hK

theorem weaken {G : Failure → Controller → σ → Prop} (h : Attempt.Keeps E K F a)
    (hF : ∀ cause c s, F cause c s → G cause c s) : Attempt.Keeps E K G a :=
  fun c s hK => (h c s hK).mono (fun _ _ _ => id) hF

end Attempt.Keeps

namespace Delivery.Keeps

variable {d : Delivery α}

theorem pure {x : α} : Delivery.Keeps E K F (pure x : Delivery α) := fun _ _ _ h => h

theorem throw {cause : Failure} (h : ∀ c s, K c s → F cause c s) :
    Delivery.Keeps E K F (throw cause : Delivery α) := fun _ => h

theorem bind {f : α → Delivery β} (h : Delivery.Keeps E K F d)
    (hf : ∀ x, Delivery.Keeps E K F (f x)) : Delivery.Keeps E K F (d >>= f) := by
  intro taken c s hK
  rw [Delivery.ensures_bind]
  exact (h taken c s hK).mono (fun x l c' s' => hf x l c' s') fun _ _ _ _ => id

theorem get_bind {f : Controller → Delivery β}
    (h : ∀ taken c s, K c s → Delivery.Ensures E (f c) (fun _ _ => K) (fun cause _ => F cause)
      taken c s) : Delivery.Keeps E K F (getThe Controller >>= f) := by
  intro taken c s hK
  rw [Delivery.ensures_bind]
  exact h taken c s hK

theorem attempt {a : Attempt α} (h : Attempt.Keeps E K F a) :
    Delivery.Keeps E K F (.attempt a) := by
  intro taken c s hK
  rw [Delivery.ensures_attempt]
  exact h c s hK

theorem lift {p : Routine α} (h : ∀ c s, K c s → p.Ensures E (fun _ => K c) s) :
    Delivery.Keeps E K F (liftM p) := by
  intro taken c s hK
  rw [Delivery.ensures_lift]
  exact h c s hK

theorem operation {op : Operation α} (h : Operation.Keeps E K op) :
    Delivery.Keeps E K F (liftM op) := by
  intro taken c s hK
  rw [Delivery.ensures_operation]
  exact h c s hK

theorem weaken {G : Failure → Controller → σ → Prop} (h : Delivery.Keeps E K F d)
    (hF : ∀ cause c s, F cause c s → G cause c s) : Delivery.Keeps E K G d :=
  fun taken c s hK => (h taken c s hK).mono (fun _ _ _ _ => id) fun cause _ c s => hF cause c s

end Delivery.Keeps

end Diskette
