import TokenMint.Bytes

/-!
# Decimal numerals

Numbers are written without leading zeros.  The digits go into a buffer of
fixed size from its last slot towards its first; twenty slots hold every 64-bit
number.  Reading takes the longest run of leading digits.
-/

namespace TokenMint.Decimal

/-- How many slots the digit buffer has. -/
def slots : Nat := 20

def digit (value : UInt64) : UInt8 :=
  '0'.toUInt8 + value.toUInt8

/-- Write the digits of `value` in front of `written`, least significant first,
using one free slot for each.  There is no answer when the slots run out. -/
def fill : Nat → UInt64 → Bytes → Option Bytes
  | 0, _, _ => none
  | free + 1, value, written =>
      let written := digit (value % 10) :: written
      if value / 10 = 0 then some written else fill free (value / 10) written

/-- The numeral of an unsigned number. -/
def ofUInt64 (value : UInt64) : Bytes :=
  (fill slots value []).getD []

/-- The numeral of a signed number: a minus sign goes before the numeral of the
magnitude, which fits in 64 bits even for the least number. -/
def ofInt64 (value : Int64) : Bytes :=
  if value < 0 then
    '-'.toUInt8 :: ofUInt64 (~~~value.toUInt64 + 1)
  else ofUInt64 value.toUInt64

/-- The numeral of a natural below 2^64. -/
def ofNat (value : Nat) : Bytes :=
  ofUInt64 value.toUInt64

/-- The numeral of an integer of 64 bits. -/
def ofInt (value : Int) : Bytes :=
  ofInt64 value.toInt64

def isDigit (byte : UInt8) : Bool :=
  '0'.toUInt8 ≤ byte && byte ≤ '9'.toUInt8

/-- The value of a run of digits, of any length. -/
def value (digits : Bytes) : Nat :=
  digits.foldl (fun total byte => total * 10 + (byte - '0'.toUInt8).toNat) 0

/-- The leading digits and what follows them. -/
def span (text : Bytes) : Bytes × Bytes :=
  (text.takeWhile isDigit, text.dropWhile isDigit)

end TokenMint.Decimal
