import TokenMint.Token.Basic

/-!
# Ages

How old a token is at a given time, in milliseconds, and whether that is too
old.
-/

namespace TokenMint.Token

/-- The time since the token's timestamp; negative for a token stamped in the
future, and never above the greatest 63-bit number. -/
def age (token : Token) (now : UInt64) : Int64 :=
  if token.timestamp ≤ now then
    if now - token.timestamp > Int64.maxValue.toUInt64 then Int64.maxValue
    else (now - token.timestamp).toInt64
  else -(token.timestamp - now).toInt64

/-- Whether a token has reached the age `ttl`.  No token reaches an age of
zero. -/
def isExpired (token : Token) (ttl now : UInt64) : Bool :=
  ttl != 0 && 0 ≤ token.age now && ttl ≤ (token.age now).toUInt64

end TokenMint.Token
