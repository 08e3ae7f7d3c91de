/-!
# 128-bit words

A 128-bit word is kept as two 64-bit halves.  Bit positions and widths are
naturals: a shift of 128 or more empties the word, and a field of 64 bits or
more is read as 64 bits.
-/

namespace TokenMint

/-- A 128-bit unsigned word. -/
structure Word128 where
  high : UInt64
  low : UInt64
deriving DecidableEq, Repr, Inhabited

namespace Word128

def ofUInt64 (value : UInt64) : Word128 :=
  ⟨0, value⟩

def zero : Word128 :=
  ⟨0, 0⟩

def maxValue : Word128 :=
  ⟨0xffffffffffffffff, 0xffffffffffffffff⟩

def isZero (word : Word128) : Bool :=
  word.low == 0 && word.high == 0

/-- The word with the lowest `width` bits set; all 64 from a width of 64 on. -/
def mask64 (width : Nat) : UInt64 :=
  if width ≥ 64 then 0xffffffffffffffff else (1 <<< width.toUInt64) - 1

/-- Whether bit `n` is set, counted from the least significant one. -/
def bit (word : Word128) (n : Nat) : Bool :=
  if n ≥ 128 then false
  else if n ≥ 64 then word.high &&& (1 <<< (n - 64).toUInt64) != 0
  else word.low &&& (1 <<< n.toUInt64) != 0

/-- Numeric order: the high halves decide unless they are equal. -/
def lt (a b : Word128) : Bool :=
  a.high < b.high || (a.high == b.high && a.low < b.low)

def le (a b : Word128) : Bool :=
  !lt b a

instance : AndOp Word128 where
  and a b := ⟨a.high &&& b.high, a.low &&& b.low⟩

instance : OrOp Word128 where
  or a b := ⟨a.high ||| b.high, a.low ||| b.low⟩

instance : XorOp Word128 where
  xor a b := ⟨a.high ^^^ b.high, a.low ^^^ b.low⟩

instance : Complement Word128 where
  complement a := ⟨~~~a.high, ~~~a.low⟩

/-- Move every bit `n` places up.  Between 1 and 63 places the top bits of the
low half carry over into the high half. -/
def shiftLeft (word : Word128) (n : Nat) : Word128 :=
  if n ≥ 128 then zero
  else if n ≥ 64 then ⟨word.low <<< (n - 64).toUInt64, 0⟩
  else if n > 0 then
    ⟨(word.high <<< n.toUInt64) ||| (word.low >>> (64 - n).toUInt64),
      word.low <<< n.toUInt64⟩
  else word

/-- Move every bit `n` places down.  Between 1 and 63 places the bottom bits of
the high half carry over into the low half. -/
def shiftRight (word : Word128) (n : Nat) : Word128 :=
  if n ≥ 128 then zero
  else if n ≥ 64 then ⟨0, word.high >>> (n - 64).toUInt64⟩
  else if n > 0 then
    ⟨word.high >>> n.toUInt64,
      (word.low >>> n.toUInt64) ||| (word.high <<< (64 - n).toUInt64)⟩
  else word

instance : HShiftLeft Word128 Nat Word128 where
  hShiftLeft := shiftLeft

instance : HShiftRight Word128 Nat Word128 where
  hShiftRight := shiftRight

/-- Read the field of `width` bits whose lowest bit is bit `offset`. -/
def field (word : Word128) (offset width : Nat) : UInt64 :=
  (word >>> offset).low &&& mask64 width

/-- Replace the field of `width` bits at `offset`.  Bits of `value` above the
width are dropped, and so are field bits above bit 127. -/
def withField (word : Word128) (offset width : Nat) (value : UInt64) : Word128 :=
  (word &&& ~~~(ofUInt64 (mask64 width) <<< offset)) |||
    (ofUInt64 (value &&& mask64 width) <<< offset)

/-- One in-place change of a word. -/
inductive Edit where
  | shiftLeft (n : Nat)
  | shiftRight (n : Nat)
  | and (mask : Word128)
  | or (mask : Word128)
  | xor (mask : Word128)
  | complement
  | setField (offset width : Nat) (value : UInt64)
deriving DecidableEq, Repr

def Edit.apply (word : Word128) : Edit → Word128
  | .shiftLeft n => word <<< n
  | .shiftRight n => word >>> n
  | .and mask => word &&& mask
  | .or mask => word ||| mask
  | .xor mask => word ^^^ mask
  | .complement => ~~~word
  | .setField offset width value => word.withField offset width value

/-- The word after a run of changes, first change first. -/
def edit (word : Word128) (edits : List Edit) : Word128 :=
  edits.foldl Edit.apply word

end Word128

end TokenMint
