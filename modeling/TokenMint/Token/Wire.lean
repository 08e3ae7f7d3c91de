import TokenMint.Hex.Buffer
import TokenMint.Token.Basic

/-!
# Wire forms of tokens

A token travels as sixteen bytes, most significant first, or as those bytes in
lower-case digits, grouped by hyphens.
-/

namespace TokenMint.Token

open TokenMint.Log (Site)

/-- How many bytes a token has. -/
def byteCount : UInt64 := 16

def toBytes (token : Token) : Bytes :=
  BigEndian.encode128 token.value

def ofBytes (bytes : Bytes) : Token :=
  ⟨BigEndian.decode128 bytes⟩

/-- How many bytes each group of the text has. -/
def groups : List Nat := [4, 2, 2, 2, 6]

/-- The digits of the groups that `bytes` is cut into. -/
def groupDigits : List Nat → Bytes → List Bytes
  | [], _ => []
  | size :: rest, bytes =>
      Hex.encode Hex.lower (bytes.take size) :: groupDigits rest (bytes.drop size)

/-- The text of a token: 32 digits, with a hyphen between groups. -/
def text (token : Token) : Bytes :=
  ['-'.toUInt8].intercalate (groupDigits groups token.toBytes)

/-- Behind `written`, add the groups that `bytes` is cut into, one after the
other.  A group that is not the first comes after a hyphen. -/
def appendGroups (written : Bytes) (first : Bool) : List Nat → Bytes → Bytes
  | [], _ => written
  | size :: rest, bytes =>
      let parted := if first then written else written ++ ['-'.toUInt8]
      appendGroups (Hex.encodeAppend Hex.lower parted (bytes.take size)) false rest
        (bytes.drop size)

/-- Behind `written`, add the text of a token. -/
def appendTo (written : Bytes) (token : Token) : Bytes :=
  appendGroups written true groups token.toBytes

/-- What is wrong with bytes that spell no token. -/
inductive WireError where
  | wrongLength (length : UInt64)
  | missing
deriving DecidableEq, Repr

namespace WireError

def message : WireError → Bytes
  | wrongLength length =>
      concat ["token must be ", .unsigned byteCount, " bytes, got ", .unsigned length]
  | missing => ascii "token buffer is null"

def status (error : WireError) : Status :=
  Status.invalidArgument error.message

end WireError

/-- The token in a buffer of which `length` bytes are given.  The length is
looked at before the buffer, which may be missing. -/
def ofBuffer (buffer : Option Bytes) (length : UInt64) : Except WireError Token :=
  if length ≠ byteCount then .error (.wrongLength length)
  else match buffer with
    | none => .error .missing
    | some bytes => .ok (ofBytes bytes)

/-- Read the token in a buffer into a destination, which must be given.  The
answer is the status and what the destination holds then: the token on success,
and otherwise what it held before. -/
def read (buffer : Option Bytes) (length : UInt64) (destination : Option Token) :
    Logging (Status × Token) := do
  let old ← Log.Check.present (Site.of "Token" 1) (ascii "out") destination
  match ofBuffer buffer length with
  | .ok token => return (Status.ok, token)
  | .error error => return (error.status, old)

end TokenMint.Token
