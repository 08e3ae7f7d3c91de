import TokenMint.Log.Check

/-!
# Words in buffers

Loading and storing a 64-bit word at a place in memory, which must be given; no
fault of a log target leaves either.  Storing touches eight bytes and no others.
-/

namespace TokenMint.BigEndian

open TokenMint.Log (Site)

/-- Load the word in the first eight bytes of a buffer. -/
def load (buffer : Option Bytes) : Logging UInt64 :=
  Effect.confined do
    return decode64 (← Log.Check.present (Site.of "BigEndian" 1) (ascii "p") buffer)

/-- Store a word in the eight bytes of a buffer from `offset` on.  The answer is
the buffer afterwards. -/
def store (buffer : Option Bytes) (offset : Nat) (value : UInt64) : Logging Bytes :=
  Effect.confined do
    let bytes ← Log.Check.present (Site.of "BigEndian" 2) (ascii "p") buffer
    return bytes.take offset ++ Bytes.overwrite (bytes.drop offset) (encode64 value)

end TokenMint.BigEndian
