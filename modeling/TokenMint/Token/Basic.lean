import TokenMint.BigEndian

/-!
# Tokens

A token is a 128-bit value made of five fields.  From the most significant bit
down they are a timestamp in milliseconds, two constant markers, a counter
within the millisecond, and a random tail.
-/

namespace TokenMint

/-- A 128-bit identifier. -/
structure Token where
  value : Word128
deriving DecidableEq, Repr, Inhabited

namespace Token

def timestampOffset : Nat := 80

def timestampWidth : Nat := 48

def versionOffset : Nat := 76

def versionWidth : Nat := 4

def variantOffset : Nat := 74

def variantWidth : Nat := 2

def counterOffset : Nat := 62

def counterWidth : Nat := 12

def randomOffset : Nat := 0

def randomWidth : Nat := 62

/-- The version marker of every minted token. -/
def standardVersion : UInt64 := 8

/-- The variant marker of every minted token. -/
def standardVariant : UInt64 := 2

/-- The last counter of a millisecond. -/
def maxCounter : UInt64 := 0xfff

/-- The token of all zeros, which is never minted. -/
def nil : Token := ⟨Word128.zero⟩

def isNil (token : Token) : Bool :=
  token.value.isZero

/-- The token with the standard markers and these fields, each cut to its
width. -/
def pack (timestamp counter random : UInt64) : Token :=
  ⟨((((Word128.zero.withField timestampOffset timestampWidth timestamp).withField
    versionOffset versionWidth standardVersion).withField
    variantOffset variantWidth standardVariant).withField
    counterOffset counterWidth counter).withField
    randomOffset randomWidth random⟩

def timestamp (token : Token) : UInt64 :=
  token.value.field timestampOffset timestampWidth

def version (token : Token) : UInt64 :=
  token.value.field versionOffset versionWidth

def variant (token : Token) : UInt64 :=
  token.value.field variantOffset variantWidth

def counter (token : Token) : UInt64 :=
  token.value.field counterOffset counterWidth

def random (token : Token) : UInt64 :=
  token.value.field randomOffset randomWidth

/-- The order of tokens as numbers. -/
def lt (a b : Token) : Bool :=
  a.value.lt b.value

def le (a b : Token) : Bool :=
  a.value.le b.value

/-- A hash that mixes both halves. -/
def hash (token : Token) : UInt64 :=
  token.value.high ^^^ token.value.low

/-- The order by timestamp and then counter, which ignores the random tail. -/
def compare (a b : Token) : Ordering :=
  if a.timestamp < b.timestamp then .lt
  else if b.timestamp < a.timestamp then .gt
  else if a.counter < b.counter then .lt
  else if b.counter < a.counter then .gt
  else .eq

end Token

end TokenMint
