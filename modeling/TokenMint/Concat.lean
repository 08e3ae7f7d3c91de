import TokenMint.Decimal

/-!
# Concatenation

Messages are put together from pieces.  Each piece has one textual form: text
stands for itself, a terminated string ends at its first NUL, and a number is a
decimal numeral.
-/

namespace TokenMint

/-- One thing to be printed. -/
inductive Piece where
  | text (bytes : Bytes)
  | terminated (bytes : Option Bytes)
  | byte (value : UInt8)
  | bool (value : Bool)
  | signed (value : Int64)
  | unsigned (value : UInt64)
deriving DecidableEq, Repr

instance : Coe String Piece where
  coe literal := .text (ascii literal)

/-- The textual form of a piece.  A terminated string that is absent prints as
a word of its own. -/
def Piece.render : Piece → Bytes
  | .text bytes => bytes
  | .terminated none => ascii "(null)"
  | .terminated (some bytes) => bytes.untilNul
  | .byte value => [value]
  | .bool value => Bytes.ofBool value
  | .signed value => Decimal.ofInt64 value
  | .unsigned value => Decimal.ofUInt64 value

/-- The textual forms of `pieces`, one after the other. -/
def concat (pieces : List Piece) : Bytes :=
  pieces.flatMap Piece.render

/-- Append the textual forms of `pieces` to a text. -/
def concatTo (written : Bytes) (pieces : List Piece) : Bytes :=
  written ++ concat pieces

@[simp]
theorem concat_nil : concat [] = [] :=
  rfl

@[simp]
theorem concat_cons (piece : Piece) (pieces : List Piece) :
    concat (piece :: pieces) = piece.render ++ concat pieces :=
  rfl

end TokenMint
