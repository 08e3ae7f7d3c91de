import TokenMint.Log.Check

/-!
# Hexadecimal buffers

Encoding and decoding into a buffer that the caller provides, along with the
size that the caller claims for it.  A claim that is too small fails a check;
where that does not end the process, the work is done all the same.  The loops
go through their input byte by byte, and store each byte of their output at the
next index of the buffer as soon as it is complete.
-/

namespace TokenMint.Hex

open TokenMint.Log (Comparison Part Site)

/-- A byte on its way to an index of a buffer. -/
structure Store where
  index : Nat
  byte : UInt8
deriving DecidableEq, Repr

/-- A buffer after these stores, first store first.  A store past its end
changes nothing. -/
def storeAll (buffer : Bytes) (stores : List Store) : Bytes :=
  stores.foldl (fun stored store => stored.set store.index store.byte) buffer

/-- What a loop has stored so far, and the index that comes next. -/
structure Writer where
  next : UInt64
  stores : List Store
deriving DecidableEq, Repr

namespace Writer

def start : Writer := ⟨0, []⟩

def write (writer : Writer) (byte : UInt8) : Writer :=
  ⟨writer.next + 1, writer.stores ++ [⟨writer.next.toNat, byte⟩]⟩

/-- Write the two digits of a byte. -/
def writeDigits (style : Style) (writer : Writer) (byte : UInt8) : Writer :=
  (writer.write (digit style (byte >>> 4))).write (digit style (byte &&& 15))

/-- Write the digits of a byte string. -/
def encode (style : Style) (writer : Writer) (data : Bytes) : Writer :=
  data.foldl (writeDigits style) writer

end Writer

/-- A decoder on its way through a text: two slots for the digits of a byte, how
many of them are taken, and the bytes that are complete. -/
structure Decoder where
  slots : Bytes
  taken : UInt8
  out : Writer
deriving DecidableEq, Repr

namespace Decoder

def start : Decoder := ⟨[0, 0], 0, Writer.start⟩

/-- Put a digit in the next slot, and write a byte if it was the last one. -/
def push (decoder : Decoder) (value : UInt8) : Decoder :=
  let slots := decoder.slots.set decoder.taken.toNat value
  if decoder.taken + 1 = 2 then
    ⟨slots, 0, decoder.out.write ((slots.getD 0 0 <<< 4) ||| slots.getD 1 0)⟩
  else ⟨slots, decoder.taken + 1, decoder.out⟩

/-- Go on through a text.  The answer is `false` with the decoder as it was
before the first byte that is neither a digit nor white space. -/
def scan (decoder : Decoder) : Bytes → Bool × Decoder
  | [] => (true, decoder)
  | byte :: rest =>
      match digit? byte with
      | some value => (decoder.push value).scan rest
      | none => if isSpace byte then decoder.scan rest else (false, decoder)

/-- What is written at the end of the text.  A digit that stands alone becomes
the high half of a last byte. -/
def finish (decoder : Decoder) : Writer :=
  if decoder.taken = 0 then decoder.out else decoder.out.write (decoder.slots.getD 0 0 <<< 4)

end Decoder

/-- Check that a claimed size is large enough. -/
def checkRoom (line : Nat) (required : Bytes) (claimed needed : UInt64) : Logging Unit :=
  Log.Check.compares (Site.of "Hex" line) Comparison.ge (needed ≤ claimed) (ascii "dstlen") required
    [Part.text (Decimal.ofUInt64 claimed)] [Part.text (Decimal.ofUInt64 needed)] []

/-- Write the digits of `data` to the front of `buffer`.  The answer is how many
there are, and the buffer afterwards. -/
def encodeInto (style : Style) (buffer : Bytes) (claimed : UInt64) (data : Bytes) :
    Logging (UInt64 × Bytes) :=
  Effect.confined do
    checkRoom 1 (ascii "encoded_length(hex, srclen)") claimed (encodedLength data.length.toUInt64)
    let out := Writer.start.encode style data
    return (out.next, storeAll buffer out.stores)

/-- Behind `written`, add the digits of `data`. -/
def encodeAppend (style : Style) (written data : Bytes) : Bytes :=
  written ++ encode style data

/-- Grow `written` by the room that the digits of `data` take, write them there,
and cut off what they have left of it. -/
def appendInPlace (style : Style) (written data : Bytes) : Logging Bytes := do
  let grown := written ++ List.replicate (encodedLength data.length.toUInt64).toNat 0
  let room := grown.drop written.length
  let (count, filled) ← encodeInto style room room.length.toUInt64 data
  return (grown.take written.length ++ filled).take (written.length + count.toNat)

/-- Write the bytes that `text` spells to the front of `buffer`.  The answer is
how many there are, unless the text spells none, and the buffer afterwards,
which in any case holds the bytes that were complete. -/
def decodeInto (buffer : Bytes) (claimed : UInt64) (text : Bytes) :
    Logging (Option UInt64 × Bytes) :=
  Effect.confined do
    checkRoom 2 (ascii "decoded_length(hex, srclen)") claimed (decodedLength text.length.toUInt64)
    match Decoder.start.scan text with
    | (true, decoder) =>
        return (some decoder.finish.next, storeAll buffer decoder.finish.stores)
    | (false, decoder) => return (none, storeAll buffer decoder.out.stores)

end TokenMint.Hex
