/-!
A controller that follows a script instead of commands. Each of its phases shows one main status, and
ends once so many bytes, looks or milliseconds have gone by.
-/
namespace Diskette

/-- What is counted in a phase. -/
inductive Script.Tally
  | writes | reads | polls | ms
  deriving DecidableEq, Repr, Inhabited

structure Script.Phase where
  status : UInt8 := 0x80
  writes : Option Nat := none
  reads : Option Nat := none
  polls : Option Nat := none
  ms : Option Nat := none
  /-- The line that is raised on the way in. -/
  irq : Option UInt8 := none
  deriving DecidableEq, Repr, Inhabited

structure Script where
  base : UInt16 := 0x3F0
  phases : Array Script.Phase := #[{}]
  index : Nat := 0
  counts : Script.Tally → Nat := fun _ => 0
  /-- Bytes for the data port. -/
  data : List UInt8 := []
  /-- What other ports read as. -/
  ports : List (UInt16 × UInt8) := []
  outputReadable : Bool := false
  /-- The phase that follows a reset. -/
  onReset : Option Nat := none
  /-- The last byte written to the digital output register. -/
  output : UInt8 := 0x0C

namespace Script

def Phase.limit (p : Phase) : Tally → Option Nat
  | .writes => p.writes
  | .reads => p.reads
  | .polls => p.polls
  | .ms => p.ms

def phase (s : Script) : Phase := s.phases.getD s.index {}

/-- Enters a phase; the line it raises comes along. -/
def enter (s : Script) (index : Nat) : Option UInt8 × Script :=
  let s := { s with index, counts := fun _ => 0 }
  (s.phase.irq, s)

/-- Counts, and goes on to the next phase if that was all and there is one. -/
def tally (s : Script) (kind : Tally) (amount : Nat) : Option UInt8 × Script :=
  let total := s.counts kind + amount
  let counted := { s with counts := fun k => if k = kind then total else s.counts k }
  match s.phase.limit kind with
  | some limit =>
    if limit ≤ total && s.index + 1 < s.phases.size then counted.enter (s.index + 1)
    else (none, counted)
  | none => (none, counted)

def read (s : Script) (port : UInt16) : UInt8 × Option UInt8 × Script :=
  if port = s.base + 4 then (s.phase.status, s.tally .polls 1)
  else if port = s.base + 5 then
    (s.data.headD 0xFF, { s with data := s.data.tail }.tally .reads 1)
  else if port = s.base + 2 && s.outputReadable then (s.output, none, s)
  else ((s.ports.lookup port).getD 0xFF, none, s)

def write (s : Script) (port : UInt16) (value : UInt8) : Option UInt8 × Script :=
  if port = s.base + 5 then s.tally .writes 1
  else if port = s.base + 2 then
    let outOfReset := s.output &&& 4 == 0 && value &&& 4 != 0
    let s := { s with output := value }
    match s.onReset with
    | some index => if outOfReset then s.enter (min index (s.phases.size - 1)) else (none, s)
    | none => (none, s)
  else (none, s)

def elapse (s : Script) (ms : Nat) : Option UInt8 × Script := s.tally .ms ms

/-- Starts another script over. -/
def replace (s : Script) (phases : Array Phase) (data : List UInt8) : Script :=
  { s with phases, data, index := 0, counts := fun _ => 0 }

end Script

/-- The next of some answers; the last one repeats. -/
def nextAnswer {α : Type} (answers : List α) (otherwise : α) : α × List α :=
  match answers with
  | [] => (otherwise, [])
  | [a] => (a, [a])
  | a :: rest => (a, rest)

end Diskette
