import TokenMint.BigEndian

/-!
# Hexadecimal text

A byte is written as two digits, high half first, in either case of letters.
Reading skips white space anywhere, takes both cases, and fills up a last digit
that stands alone with a zero.
-/

namespace TokenMint.Hex

/-- Which letters to write with; reading ignores it. -/
structure Style where
  uppercase : Bool
deriving DecidableEq, Repr, Inhabited

def lower : Style := ⟨false⟩

def upper : Style := ⟨true⟩

/-- The digit of a value below sixteen. -/
def digit (style : Style) (value : UInt8) : UInt8 :=
  if value < 10 then '0'.toUInt8 + value
  else if style.uppercase then 'A'.toUInt8 + (value - 10)
  else 'a'.toUInt8 + (value - 10)

/-- The two digits of a byte. -/
def encodeByte (style : Style) (byte : UInt8) : Bytes :=
  [digit style (byte >>> 4), digit style (byte &&& 15)]

/-- The digits of a byte string. -/
def encode (style : Style) (data : Bytes) : Bytes :=
  data.flatMap (encodeByte style)

/-- The value of a digit of either case. -/
def digit? (byte : UInt8) : Option UInt8 :=
  if '0'.toUInt8 ≤ byte ∧ byte ≤ '9'.toUInt8 then some (byte - '0'.toUInt8)
  else if 'a'.toUInt8 ≤ byte ∧ byte ≤ 'f'.toUInt8 then some (byte - 'a'.toUInt8 + 10)
  else if 'A'.toUInt8 ≤ byte ∧ byte ≤ 'F'.toUInt8 then some (byte - 'A'.toUInt8 + 10)
  else none

/-- Space, tab, carriage return, line feed, form feed and vertical tab. -/
def isSpace (byte : UInt8) : Bool :=
  byte == 0x20 || byte == 0x09 || byte == 0x0d || byte == 0x0a || byte == 0x0c || byte == 0x0b

/-- What a reader has so far: the bytes that are complete, and the first digit
of the next one. -/
structure Reader where
  done : Bytes
  pending : Option UInt8
deriving DecidableEq, Repr, Inhabited

namespace Reader

def start : Reader := ⟨[], none⟩

/-- Take in one digit. -/
def push (reader : Reader) (value : UInt8) : Reader :=
  match reader.pending with
  | none => { reader with pending := some value }
  | some high => ⟨reader.done ++ [(high <<< 4) ||| value], none⟩

/-- The bytes of a reader at the end of its text; a digit that stands alone
becomes the high half of a last byte. -/
def finish (reader : Reader) : Bytes :=
  match reader.pending with
  | none => reader.done
  | some high => reader.done ++ [high <<< 4]

/-- Read on.  The answer is `false` with the reader as it was before the first
byte that is neither a digit nor white space. -/
def run (reader : Reader) : Bytes → Bool × Reader
  | [] => (true, reader)
  | byte :: rest =>
      match digit? byte with
      | some value => (reader.push value).run rest
      | none => if isSpace byte then reader.run rest else (false, reader)

end Reader

/-- The bytes that a text spells, unless some byte of it is neither a digit
nor white space.  Texts of either style are read alike. -/
def decode (text : Bytes) (_style : Style := lower) : Option Bytes :=
  match Reader.start.run text with
  | (true, reader) => some reader.finish
  | (false, _) => none

/-- Whether a text spells bytes, and the bytes.  With a text that spells none
there are none. -/
def answer (text : Bytes) (style : Style := lower) : Bool × Bytes :=
  match decode text style with
  | some data => (true, data)
  | none => (false, [])

/-- How long the digits of `length` bytes are, modulo 2^64. -/
def encodedLength (length : UInt64) : UInt64 :=
  length * 2

/-- How many bytes `length` digits can spell at most, modulo 2^64. -/
def decodedLength (length : UInt64) : UInt64 :=
  (length + 1) / 2

/-- The numeral of a word in base sixteen, without leading zeros. -/
def numeral (value : UInt64) : Bytes :=
  if value = 0 then ['0'.toUInt8]
  else (encode lower (BigEndian.encode64 value)).dropWhile (· == '0'.toUInt8)

end TokenMint.Hex
