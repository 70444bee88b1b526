import Diskette.Command.Transfer
import Diskette.Controller.Steps
import Diskette.Fifo.Payload

/-!
Data commands. The payload goes through the bounce buffer and the DMA channel, or sector by sector
through the data port; the bytes that reach the caller are kept apart from the outcome, because some
may have come before a failure.
-/
namespace Diskette

/-- An attempt that hands over bytes as it goes. -/
abbrev Delivery := ExceptT Failure (StateT (List UInt8) Operation)

namespace Delivery

def attempt {α : Type} (a : Attempt α) : Delivery α := ExceptT.mk (StateT.lift a.run)

/-- Hands bytes over to the caller. -/
def deliver (bytes : List UInt8) : Delivery Unit := set bytes

end Delivery

namespace Operation

def transferTimeout : Nat := 10000
def sectorTimeout : Nat := 10000
def byteTimeout : Nat := 1000

/-- Reads so many sectors up to the first stall. -/
def readSectors (base : UInt16) (size : Nat) : (count : Nat) → Routine (List UInt8)
  | 0 => return []
  | count + 1 => do
    let _ ← Fifo.awaitStatus base MainStatus.dataReady sectorTimeout
    let bytes ← Platform.uninterrupted (Fifo.readPayload base byteTimeout size)
    if bytes.length = size then return bytes ++ (← readSectors base size count)
    else return bytes

/-- How many bytes of so many sectors went out before the first stall. -/
def writeSectors (base : UInt16) (size : Nat) : (count : Nat) → (bytes : List UInt8) → Routine Nat
  | 0, _ => return 0
  | count + 1, bytes => do
    let _ ← Fifo.awaitStatus base MainStatus.dataReady sectorTimeout
    let sent ← Platform.uninterrupted
      (Fifo.writePayload base byteTimeout (bytes.take size))
    if sent = size then return sent + (← writeSectors base size count (bytes.drop size))
    else return sent

/-- Reads the result of a data command and takes its status in. -/
def receiveStatus : Attempt (ResultBytes (.exactly maxResult)) := do
  let result ← takeResult (.exactly maxResult)
  absorbStatus result
  return result

/-- The outcome of a data command whose result is in. -/
def conclude (span : SectorSpan) (t : Transfer) (result : ResultBytes (.exactly maxResult))
    (transferred : Nat) (endedBy : EndSign) : Attempt Report := do
  checkStatus .transfer result
  if transferred < t.length then throw (.shortTransfer t.length transferred)
  log (.moved transferred t.direction span)
  return {
    result := result.toList
    status := (← getThe Controller).status
    transferred
    endedBy }

/-- Puts bytes that are to be written where the channel takes them from. -/
def fillBounce (t : Transfer) : Routine Unit :=
  match t.buffer with
  | .source source => Platform.memory (.store (source.take t.length))
  | .destination _ => return ()

/-- Hands over the bytes that the channel has put down. -/
def emptyBounce (t : Transfer) (moved : Nat) : Delivery Unit := do
  match t.buffer with
  | .source _ => return ()
  | .destination _ => .deliver (← Platform.memory (.fetch moved)).toList

def transferByChannel (channel : UInt8) (bytes : List UInt8) (span : SectorSpan) (t : Transfer) :
    Delivery Report := do
  fillBounce t
  let address ← Platform.memory .bounceAddress
  .attempt (sendCommand bytes true (some ⟨channel, t.direction, address, t.length⟩))
  let endedBy ← .attempt (awaitEnd transferTimeout MainStatus.canRead)
  .attempt awaitResult
  let result ← .attempt receiveStatus
  let moved ← Channel.moved channel t.length
  emptyBounce t moved
  .attempt (conclude span t result moved endedBy)

/-- Steps the sectors of a run through the data port, and counts the bytes that got through. -/
def stepSectors (base : UInt16) (span : SectorSpan) (buffer : PayloadBuffer) : Delivery Nat := do
  match buffer with
  | .destination _ =>
    let taken ← readSectors base span.sectorBytes span.count.toNat
    .deliver taken
    return taken.length
  | .source source => writeSectors base span.sectorBytes span.count.toNat source

def transferByPort (bytes : List UInt8) (span : SectorSpan) (t : Transfer) :
    Delivery Report := do
  .attempt (sendCommand bytes false none)
  setPhase .awaitingCompletion
  let moved ← stepSectors (← getThe Controller).base span t.buffer
  if moved ≠ t.length then throw (.shortTransfer t.length moved)
  let result ← .attempt receiveStatus
  .attempt (conclude span t result moved .polling)

def transfer (bytes : List UInt8) (span : SectorSpan) (t : Transfer) : Delivery Report := do
  let c ← getThe Controller
  .attempt agreeOnPath
  match c.path, c.channel with
  | .channel, some channel => transferByChannel channel bytes span t
  | _, _ => transferByPort bytes span t

end Operation

end Diskette
