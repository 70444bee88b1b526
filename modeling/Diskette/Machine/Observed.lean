import Diskette.Log.Console
import Diskette.Trace

/-! A machine under observation: what is done to it is traced, and what is logged shows on a
console. -/
namespace Diskette

structure Observed (σ : Type) where
  machine : σ
  trace : Trace := {}
  console : Log.Console := {}

namespace Observed

variable {σ : Type}

def step (m : Machine Platform σ) (o : Observed σ) (c : Platform.Call) :
    Platform.Reply c × Observed σ :=
  let (reply, machine) := m.step c o.machine
  let trace := match Trace.eventOf c reply with
    | some e => o.trace.add e
    | none => o.trace
  let console := match c with
    | .log base event => o.console.print (event.record base)
    | _ => o.console
  (reply, { machine, trace, console })

end Observed

/-- The same machine, observed. -/
def Machine.observed {σ : Type} (m : Machine Platform σ) : Machine Platform (Observed σ) :=
  ⟨fun c o => o.step m c⟩

end Diskette
