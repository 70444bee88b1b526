/-!
Programs that call on their surroundings, and the machines that answer. A program is a finite tree:
it ends with a value, or makes a call and goes on from the reply. What a call means is left to the
machine that runs it.
-/
namespace Diskette

structure Interface where
  Call : Type
  Reply : Call → Type

inductive Program (I : Interface) (α : Type) : Type
  | done (value : α)
  | call (c : I.Call) (next : I.Reply c → Program I α)

namespace Program

variable {I J : Interface} {α β γ : Type}

def bind : Program I α → (α → Program I β) → Program I β
  | done a, f => f a
  | call c next, f => call c fun r => (next r).bind f

instance : Monad (Program I) where
  pure := done
  bind := bind

@[simp] theorem pure_eq (a : α) : (pure a : Program I α) = done a := rfl

@[simp] theorem done_bind (a : α) (f : α → Program I β) : done a >>= f = f a := rfl

@[simp] theorem call_bind (c : I.Call) (next : I.Reply c → Program I α) (f : α → Program I β) :
    call c next >>= f = call c fun r => next r >>= f := rfl

theorem bind_done (p : Program I α) : p >>= done = p := by
  induction p with
  | done a => rfl
  | call c next ih => simp [ih]

theorem bind_bind (p : Program I α) (f : α → Program I β) (g : β → Program I γ) :
    p >>= f >>= g = p >>= fun a => f a >>= g := by
  induction p with
  | done a => rfl
  | call c next ih => simp [ih]

instance : LawfulMonad (Program I) :=
  LawfulMonad.mk' _ bind_done done_bind bind_bind

/-- One call, ending with its reply. -/
def perform (c : I.Call) : Program I (I.Reply c) := call c done

/-- Each call of one interface made by a program of another. -/
def expand (f : (c : I.Call) → Program J (I.Reply c)) : Program I α → Program J α
  | done a => done a
  | call c next => (f c).bind fun r => (next r).expand f

end Program

/-- Answers the calls of an interface and keeps a state between them. -/
structure Machine (I : Interface) (σ : Type) where
  step : (c : I.Call) → σ → I.Reply c × σ

namespace Program

variable {I J : Interface} {α β σ : Type}

def run (m : Machine I σ) : Program I α → σ → α × σ
  | done a, s => (a, s)
  | call c next, s =>
    let (r, s) := m.step c s
    (next r).run m s

theorem run_bind (m : Machine I σ) (p : Program I α) (f : α → Program I β) (s : σ) :
    (p >>= f).run m s = (f (p.run m s).1).run m (p.run m s).2 := by
  induction p generalizing s with
  | done a => rfl
  | call c next ih => exact ih _ _

end Program

/-- A machine of one interface from a machine of another and a program for each call. -/
def Machine.through {I J : Interface} {σ : Type} (m : Machine J σ)
    (f : (c : I.Call) → Program J (I.Reply c)) : Machine I σ where
  step c s := (f c).run m s

end Diskette
