import Diskette.Log.Record
import Diskette.Text.Utf8

/-! A console that shows log records: bytes on a serial line, with a carriage return before each line
feed. -/
namespace Diskette.Log

/-- The bytes that a text makes on a serial line. -/
def wire (text : String) : List UInt8 :=
  (Utf8.bytes text).flatMap fun b => if b = 10 then [13, 10] else [b]

structure Console where
  max : Threshold := none
  bytes : Array UInt8 := #[]
  deriving Inhabited

namespace Console

def print (c : Console) (r : Record) : Console :=
  if c.max.admits r.level then { c with bytes := c.bytes ++ wire r.line } else c

/-- What has been shown, and the console without it. -/
def take (c : Console) : String × Console := (Utf8.decode c.bytes, { c with bytes := #[] })

end Console

end Diskette.Log
