import Diskette.Controller.BringUp
import Diskette.Controller.Execute

/-!
Careful operations. They take nothing for granted that could be out of range: before they index, cut out, shift, add or
take away they look whether that can be done, and they break off if it cannot. What an operation does that breaks off
nowhere is what its careful form does.
-/
namespace Diskette

variable {α β : Type}

namespace Careful

/-- A difference that must not fall below zero. -/
def minus? (a b : Nat) : Option Nat := if b ≤ a then some (a - b) else none

/-- A sum that must not reach a limit. -/
def plus? (limit a b : Nat) : Option Nat := if a + b < limit then some (a + b) else none

/-- A byte is shifted by less than its width. -/
def shift? (byte : UInt8) (places : Nat) : Option UInt8 := if places < 8 then some (byte <<< UInt8.ofNat places) else none

/-- The stretch of a list between two places. -/
def slice? (xs : List α) (start stop : Nat) : Option (List α) :=
  if start ≤ stop ∧ stop ≤ xs.length then some ((xs.take stop).drop start) else none

/-- There is room for so many more in something that holds some already. -/
def room? (capacity held more : Nat) : Option Unit := if held + more ≤ capacity then some () else none

theorem minus?_eq {a b : Nat} (h : b ≤ a) : minus? a b = some (a - b) := if_pos h

theorem plus?_eq {limit a b : Nat} (h : a + b < limit) : plus? limit a b = some (a + b) := if_pos h

theorem slice?_eq {xs : List α} {start stop : Nat} (h : start ≤ stop) (hstop : stop ≤ xs.length) :
    slice? xs start stop = some ((xs.take stop).drop start) := if_pos ⟨h, hstop⟩

theorem room?_eq {capacity held more : Nat} (h : held + more ≤ capacity) : room? capacity held more = some () := if_pos h

end Careful

abbrev Careful := OptionT Routine

abbrev CarefulOperation := StateT Controller Careful

abbrev CarefulAttempt := ExceptT Failure CarefulOperation

abbrev CarefulDelivery := ExceptT Failure (StateT (List UInt8) CarefulOperation)

instance : MonadLift Option Careful := ⟨fun o => OptionT.mk (pure o)⟩

/-- Something that is tried, with the controller as it is. -/
def CarefulAttempt.of (routine : Careful (Except Failure α)) : CarefulAttempt α := ExceptT.mk (monadLift routine)

namespace CarefulDelivery

def attempt (a : CarefulAttempt α) : CarefulDelivery α := ExceptT.mk (StateT.lift a.run)

def deliver (bytes : List UInt8) : CarefulDelivery Unit := set bytes

end CarefulDelivery

/-- A routine that takes care, and breaks off nowhere. -/
def Program.careful (p : Routine α) : Careful α := OptionT.lift p

/-- An operation that takes care, and breaks off nowhere. -/
def Operation.careful (op : Operation α) : CarefulOperation α := fun c => (StateT.run op c).careful

def Attempt.careful (a : Attempt α) : CarefulAttempt α := ExceptT.mk (Operation.careful a.run)

def Delivery.careful (d : Delivery α) : CarefulDelivery α :=
  ExceptT.mk fun taken => Operation.careful (d.run.run taken)

variable {b : Prop} [Decidable b]

namespace Program

@[simp] theorem careful_pure (a : α) : (pure a : Routine α).careful = pure a := rfl

@[simp] theorem careful_done (a : α) : (.done a : Routine α).careful = pure a := rfl

@[simp] theorem careful_bind (p : Routine α) (f : α → Routine β) :
    (p >>= f).careful = p.careful >>= fun a => (f a).careful := by
  apply OptionT.ext
  simp [careful, OptionT.run_bind]

@[simp] theorem careful_ite (p q : Routine α) : (if b then p else q).careful = if b then p.careful else q.careful := by
  split <;> rfl

theorem careful_lift (p : Routine α) : (liftM p : Careful α) = p.careful := rfl

end Program

namespace Operation

@[simp] theorem careful_pure (a : α) : Operation.careful (pure a) = pure a := rfl

@[simp] theorem careful_bind (op : Operation α) (f : α → Operation β) :
    Operation.careful (op >>= f) = Operation.careful op >>= fun a => Operation.careful (f a) := by
  funext c
  exact Program.careful_bind (StateT.run op c) fun r => StateT.run (f r.1) r.2

@[simp] theorem careful_map (f : α → β) (op : Operation α) :
    Operation.careful (f <$> op) = f <$> Operation.careful op := by
  simp only [map_eq_pure_bind, careful_bind, careful_pure]

@[simp] theorem careful_ite (op op' : Operation α) :
    Operation.careful (if b then op else op') = if b then Operation.careful op else Operation.careful op' := by
  split <;> rfl

@[simp] theorem careful_get : Operation.careful get = get := rfl

@[simp] theorem careful_modify (f : Controller → Controller) : Operation.careful (modify f) = modify f := rfl

@[simp] theorem careful_lift (p : Routine α) : Operation.careful (liftM p) = liftM p.careful := by
  funext c
  exact Program.careful_bind p fun a => pure (a, c)

end Operation

namespace Attempt

@[simp] theorem careful_pure (a : α) : Attempt.careful (pure a) = pure a := rfl

@[simp] theorem careful_bind (a : Attempt α) (f : α → Attempt β) :
    Attempt.careful (a >>= f) = Attempt.careful a >>= fun x => Attempt.careful (f x) := by
  refine (Operation.careful_bind a.run _).trans (congrArg (Operation.careful a.run >>= ·) ?_)
  funext r
  cases r <;> rfl

@[simp] theorem careful_ite (a a' : Attempt α) :
    Attempt.careful (if b then a else a') = if b then Attempt.careful a else Attempt.careful a' := by
  split <;> rfl

@[simp] theorem careful_throw (cause : Failure) : Attempt.careful (throw cause : Attempt α) = throw cause := rfl

@[simp] theorem careful_operation (op : Operation α) : Attempt.careful (liftM op) = liftM (Operation.careful op) :=
  Operation.careful_map Except.ok op

@[simp] theorem careful_lift (p : Routine α) : Attempt.careful (liftM p) = liftM p.careful :=
  (careful_operation (liftM p)).trans (congrArg liftM (Operation.careful_lift p))

@[simp] theorem careful_of (p : Routine (Except Failure α)) : Attempt.careful (.of p) = .of p.careful :=
  Operation.careful_lift p

@[simp] theorem careful_getThe : Attempt.careful (getThe Controller) = getThe Controller := rfl

@[simp] theorem careful_get : Attempt.careful (get : Attempt Controller) = get := rfl

@[simp] theorem careful_modifyThe (f : Controller → Controller) :
    Attempt.careful (modifyThe Controller f) = modifyThe Controller f := rfl

@[simp] theorem careful_modify (f : Controller → Controller) :
    Attempt.careful (modify f) = modify f := rfl

@[simp] theorem careful_map (f : α → β) (a : Attempt α) : Attempt.careful (f <$> a) = f <$> Attempt.careful a := by
  simp only [map_eq_pure_bind, careful_bind, careful_pure]

/-- An attempt whose outcome is looked at. -/
@[simp] theorem careful_run (a : Attempt α) : Operation.careful a.run = (Attempt.careful a).run := rfl

end Attempt

namespace Delivery

@[simp] theorem careful_pure (a : α) : Delivery.careful (pure a) = pure a := rfl

@[simp] theorem careful_bind (d : Delivery α) (f : α → Delivery β) :
    Delivery.careful (d >>= f) = Delivery.careful d >>= fun x => Delivery.careful (f x) := by
  apply ExceptT.ext
  funext taken
  have hbind := Operation.careful_bind (d.run.run taken) fun r => StateT.run (ExceptT.bindCont f r.1) r.2
  refine hbind.trans ?_
  change _ = Operation.careful (d.run.run taken) >>= fun r =>
    StateT.run (ExceptT.bindCont (fun x => Delivery.careful (f x)) r.1) r.2
  refine bind_congr fun ⟨r, taken'⟩ => ?_
  cases r <;> rfl

@[simp] theorem careful_ite (d d' : Delivery α) :
    Delivery.careful (if b then d else d') = if b then Delivery.careful d else Delivery.careful d' := by
  split <;> rfl

@[simp] theorem careful_throw (cause : Failure) : Delivery.careful (throw cause : Delivery α) = throw cause := rfl

@[simp] theorem careful_attempt (a : Attempt α) : Delivery.careful (.attempt a) = .attempt (Attempt.careful a) := by
  apply ExceptT.ext
  funext taken
  exact Operation.careful_bind a.run fun r => pure (r, taken)

@[simp] theorem careful_deliver (bytes : List UInt8) : Delivery.careful (.deliver bytes) = .deliver bytes := rfl

@[simp] theorem careful_operation (op : Operation α) : Delivery.careful (liftM op) = liftM (Operation.careful op) := by
  apply ExceptT.ext
  funext taken
  change Operation.careful (StateT.run (Except.ok <$> StateT.lift op) taken) =
    StateT.run (Except.ok <$> StateT.lift (Operation.careful op)) taken
  simp

@[simp] theorem careful_lift (p : Routine α) : Delivery.careful (liftM p) = liftM p.careful :=
  (careful_operation (liftM p)).trans (congrArg liftM (Operation.careful_lift p))

@[simp] theorem careful_map (f : α → β) (d : Delivery α) : Delivery.careful (f <$> d) = f <$> Delivery.careful d := by
  simp only [map_eq_pure_bind, careful_bind, careful_pure]

@[simp] theorem careful_getThe : Delivery.careful (getThe Controller) = getThe Controller := rfl

/-- A delivery, and the bytes that it has handed over. -/
@[simp] theorem careful_run (d : Delivery α) (taken : List UInt8) :
    Operation.careful (d.run taken) = (Delivery.careful d).run taken := rfl

end Delivery

end Diskette
