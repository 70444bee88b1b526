import Diskette.Text.Hex

/-! The 32-bit FNV-1a digest of some bytes, and how long runs of bytes are shown by it. -/
namespace Diskette.Digest

def fnv (bytes : List UInt8) : UInt32 :=
  bytes.foldl (fun h b => (h ^^^ b.toUInt32) * 0x01000193) 0x811C9DC5

/-- Eight digits. -/
def text (bytes : List UInt8) : String :=
  let h := fnv bytes
  Hex.bytes [(h >>> 24).toUInt8, (h >>> 16).toUInt8, (h >>> 8).toUInt8, h.toUInt8]

end Diskette.Digest
