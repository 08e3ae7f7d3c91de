import TokenMint.Bytes

/-!
# Security ratings

How hard the bytes of a random source are to predict, as one byte.  The rating
scale is cut into four named bands.
-/

namespace TokenMint

/-- A rating of unpredictability; higher is better. -/
structure Security where
  level : UInt8
deriving DecidableEq, Repr, Inhabited

namespace Security

def weak : Security := ⟨0x40⟩

def secure : Security := ⟨0x80⟩

def strong : Security := ⟨0xc0⟩

/-- The name of the band that a rating falls in. -/
def name (rating : Security) : Bytes :=
  if rating.level < weak.level then ascii "broken"
  else if rating.level < secure.level then ascii "weak"
  else if rating.level < strong.level then ascii "secure"
  else ascii "strong"

/-- Whether a rating is good enough for minting. -/
def isSecure (rating : Security) : Bool :=
  secure.level ≤ rating.level

end Security

end TokenMint
