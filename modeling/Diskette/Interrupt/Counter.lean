/-!
The counters of one interrupt line. They are shared: the handler counts the fires, the foreground
reads them and acknowledges. A line that fires `stormMark` times without an acknowledgement is
degraded for good.
-/
namespace Diskette

/-- An interrupt line as the driver holds it: its number, and where its counters are. -/
structure Line where
  irq : UInt8
  id : Nat
  deriving DecidableEq, Repr, Inhabited

structure FireCounter where
  /-- All fires so far, modulo 2³². -/
  fired : UInt32 := 0
  unacknowledged : UInt32 := 0
  degraded : Bool := false
  deriving DecidableEq, Repr, Inhabited

namespace FireCounter

/-- Unacknowledged fires at which a line is given up. -/
def stormMark : UInt32 := 0xFFFE

def acknowledge (c : FireCounter) : FireCounter := { c with unacknowledged := 0 }

/-- Counts a fire, and tells whether it is the one that degrades the line. -/
def fire (c : FireCounter) : Bool × FireCounter :=
  let pending := c.unacknowledged + 1
  (stormMark ≤ pending && !c.degraded,
    { fired := c.fired + 1
      unacknowledged := pending
      degraded := c.degraded || stormMark ≤ pending })

end FireCounter

end Diskette
