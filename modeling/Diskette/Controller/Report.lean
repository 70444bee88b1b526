import Diskette.Command.Basic
import Diskette.Register.Status

/-! What a completed command hands back, and what its status bytes say. -/
namespace Diskette

/-- How the end of a command was noticed. -/
inductive EndSign
  | interrupt | polling
  deriving DecidableEq, Repr, Inhabited

structure Report where
  result : List UInt8
  status : ResultStatus
  /-- Payload bytes moved. -/
  transferred : Nat
  endedBy : EndSign
  /-- Something to be told that did not stop the command. -/
  notice : Option Failure := none
  deriving DecidableEq, Repr, Inhabited

/-- Whether ST0 to ST2 speak of a failure. A data command that runs out its last sector without a
terminal count ends abnormally, with end of cylinder and nothing else; that is no failure. -/
def indicatesFailure (kind : CommandKind) (st0 st1 st2 : UInt8) : Bool :=
  match InterruptCode.ofSt0 st0 with
  | .normal => false
  | .abnormal => !(kind == .transfer && st1 == endOfCylinder && st2 == 0)
  | .invalidCommand | .abnormalPolling => true

end Diskette
