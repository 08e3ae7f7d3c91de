import TokenMint.Clock.Basic
import TokenMint.Options.Basic
import TokenMint.Token.Wire
import TokenMint.Verdict

/-!
# Validators

A validator classifies tokens from untrusted senders.  The markers come first;
the clock is read only for a token whose markers are right, and the timestamp
of such a token may be ahead of the clock by no more than a tolerance.
-/

namespace TokenMint

/-- A verdict, with what it rests on. -/
inductive Finding where
  | valid
  | malformed (error : Token.WireError)
  | wrongVersion (version : UInt64)
  | wrongVariant (variant : UInt64)
  | futureTimestamp (timestamp ahead tolerance : UInt64)
deriving DecidableEq, Repr

namespace Finding

def verdict : Finding → Verdict
  | valid => .valid
  | malformed _ => .malformed
  | wrongVersion _ => .wrongVersion
  | wrongVariant _ => .wrongVariant
  | futureTimestamp .. => .futureTimestamp

/-- What a finding tells about a token; nothing about a valid one. -/
def explanation : Finding → Bytes
  | valid => []
  | malformed error => concat ["malformed token: ", .text error.message]
  | wrongVersion version =>
      concat ["wrong token version ", .unsigned version, ", expected ",
        .unsigned Token.standardVersion]
  | wrongVariant variant =>
      concat ["wrong token variant ", .unsigned variant, ", expected ",
        .unsigned Token.standardVariant]
  | futureTimestamp timestamp ahead tolerance =>
      concat ["token timestamp ", .unsigned timestamp, " is ", .unsigned ahead,
        "ms ahead of local clock, tolerance is ", .unsigned tolerance, "ms"]

/-- A finding as a status: everything but a valid token is an invalid argument. -/
def status (finding : Finding) : Status :=
  match finding with
  | valid => Status.ok
  | flaw => Status.invalidArgument flaw.explanation

end Finding

namespace Token

/-- What the markers say against a token, if anything. -/
def markerFlaw (token : Token) : Option Finding :=
  if token.version ≠ standardVersion then some (.wrongVersion token.version)
  else if token.variant ≠ standardVariant then some (.wrongVariant token.variant)
  else none

/-- What the time says about a token with the right markers. -/
def timeliness (token : Token) (tolerance now : UInt64) : Finding :=
  if token.timestamp > now ∧ token.timestamp - now > tolerance then
    .futureTimestamp token.timestamp (token.timestamp - now) tolerance
  else .valid

/-- Classify a token, reading the time only if its markers are right. -/
def examine {m : Type → Type} [Monad m] (tolerance : UInt64) (now : m UInt64) (token : Token) :
    m Finding :=
  match token.markerFlaw with
  | some flaw => pure flaw
  | none => do return token.timeliness tolerance (← now)

/-- Classify the token in a buffer of which `length` bytes are given. -/
def examineBuffer {m : Type → Type} [Monad m] (tolerance : UInt64) (now : m UInt64)
    (buffer : Option Bytes) (length : UInt64) : m Finding :=
  match ofBuffer buffer length with
  | .error error => pure (.malformed error)
  | .ok token => token.examine tolerance now

end Token

/-- A clock, and how far ahead of it timestamps may be, in milliseconds. -/
structure Validator where
  clock : Clock
  tolerance : UInt64
deriving DecidableEq, Repr

namespace Validator

/-- The validator of a clock and a tolerance.  There must be a clock. -/
def create {σ : Type} (clock : Clock) (tolerance : UInt64) : Effect σ Validator := do
  clock.assertValid
  return ⟨clock, tolerance⟩

/-- The validator that a container of options asks for. -/
def ofOptions {σ κ : Type} [OptionClasses κ] [DecidableEq κ] (clock : Clock)
    (options : Options (OptionKey κ)) : Effect σ Validator :=
  create clock (show ValidationOptions from options.get .validation).toleranceMs

/-- The validator of the process: its clock, and the given default options. -/
def ofDefaults {κ : Type} [OptionClasses κ] [DecidableEq κ]
    (defaults : Options (OptionKey κ)) : Hosted Validator := do
  ofOptions (Clock.ofHost (← get)) defaults

def examine (validator : Validator) (token : Token) : Hosted Finding :=
  token.examine validator.tolerance validator.clock.now

def examineBuffer (validator : Validator) (buffer : Option Bytes) (length : UInt64) :
    Hosted Finding :=
  Token.examineBuffer validator.tolerance validator.clock.now buffer length

/-- The verdict on a token. -/
def validate (validator : Validator) (token : Token) : Hosted Verdict := do
  return (← validator.examine token).verdict

/-- The verdict on a buffer. -/
def validateBuffer (validator : Validator) (buffer : Option Bytes) (length : UInt64) :
    Hosted Verdict := do
  return (← validator.examineBuffer buffer length).verdict

/-- Whether a token is valid, and why not. -/
def check (validator : Validator) (token : Token) : Hosted Status := do
  return (← validator.examine token).status

/-- Whether the token in a buffer is valid, and why not. -/
def checkBuffer (validator : Validator) (buffer : Option Bytes) (length : UInt64) :
    Hosted Status := do
  return (← validator.examineBuffer buffer length).status

end Validator

end TokenMint
