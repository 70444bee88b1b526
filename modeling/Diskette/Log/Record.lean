/-! Log records, their levels and the line a record makes on the console. -/
namespace Diskette.Log

inductive Level
  | error | warn | info | debug | trace
  deriving DecidableEq, Repr, Inhabited

namespace Level

/-- One for the gravest level, five for the most talkative. -/
def rank : Level → Nat
  | error => 1
  | warn => 2
  | info => 3
  | debug => 4
  | trace => 5

/-- The level as a line shows it, coloured and five columns wide. -/
def badge : Level → String
  | error => "\x1b[31mERROR\x1b[0m"
  | warn => "\x1b[33mWARN\x1b[0m "
  | info => "\x1b[32mINFO\x1b[0m "
  | debug => "\x1b[34mDEBUG\x1b[0m"
  | trace => "\x1b[35mTRACE\x1b[0m"

end Level

/-- The most talkative level that is let through; `none` lets nothing through. -/
abbrev Threshold := Option Level

def Threshold.admits (max : Threshold) (level : Level) : Bool :=
  match max with
  | none => false
  | some top => level.rank ≤ top.rank

/-- The pieces that a line is written in, from those that its text is in. -/
def linePieces (level : Level) (target : String) (text : List String) : List String :=
  ["[", level.badge, "] ", target, ": "] ++ text ++ ["\n"]

structure Record where
  level : Level
  target : String
  text : String
  deriving DecidableEq, Repr, Inhabited

/-- The line of a record, with its line feed. -/
def Record.line (r : Record) : String :=
  "[" ++ r.level.badge ++ "] " ++ r.target ++ ": " ++ r.text ++ "\n"

end Diskette.Log
