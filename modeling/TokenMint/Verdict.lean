import TokenMint.Bytes

/-!
# Verdicts

What a validator thinks of a token.
-/

namespace TokenMint

/-- The outcome of a validation.  The flaws are looked for in this order, and
the first one that is found decides. -/
inductive Verdict where
  | valid
  | malformed
  | wrongVersion
  | wrongVariant
  | futureTimestamp
deriving DecidableEq, Repr, Inhabited

namespace Verdict

def name : Verdict → Bytes
  | valid => ascii "valid"
  | malformed => ascii "malformed"
  | wrongVersion => ascii "wrong_version"
  | wrongVariant => ascii "wrong_variant"
  | futureTimestamp => ascii "future_timestamp"

/-- The verdict with a given number. -/
def ofNumber? (number : UInt8) : Option Verdict :=
  [valid, malformed, wrongVersion, wrongVariant, futureTimestamp][number.toNat]?

/-- The name of the verdict with a given number, also of a number without. -/
def nameOfNumber (number : UInt8) : Bytes :=
  match ofNumber? number with
  | some verdict => verdict.name
  | none => ascii "unknown"

end Verdict

end TokenMint
