import TokenMint.Host
import TokenMint.Log.Check
import TokenMint.Options.Basic

/-!
# Options from the environment

The user may set the tolerance of validators through a variable.  Its value has
to be a decimal number of at most 64 bits, and nothing else.
-/

namespace TokenMint.Options

open TokenMint.Log (Level Part Site)

/-- The variable with the tolerance in milliseconds. -/
def toleranceVariable : Bytes := ascii "UPTOKEN_CLOCK_SKEW_MS"

/-- What is wrong with the value of the variable. -/
inductive ToleranceError where
  | notDecimal (value : Bytes)
  | tooLarge (value : Bytes)
deriving DecidableEq, Repr

def ToleranceError.status : ToleranceError → Status
  | notDecimal value =>
      Status.invalidArgument (concat ["expected a decimal integer, got \"", .text value, "\""])
  | tooLarge value => Status.outOfRange (concat ["value \"", .text value, "\" is too large"])

/-- Read the value of the variable.  It must start with a digit; digits whose
value has more than 64 bits are too large whatever follows them. -/
def readTolerance (value : Bytes) : Except ToleranceError UInt64 :=
  let (digits, rest) := Decimal.span value
  if digits = [] then .error (.notDecimal value)
  else if Decimal.value digits ≥ UInt64.size then .error (.tooLarge value)
  else if rest ≠ [] then .error (.notDecimal value)
  else .ok (Decimal.value digits).toUInt64

variable {κ : Type} [OptionClasses κ] [DecidableEq κ]

/-- A computation that works with a container of options.  There may be none. -/
abbrev Loading (κ : Type) [OptionClasses κ] :=
  Effect (Option (Options (OptionKey κ)) × Host)

/-- Run a computation that leaves the options alone. -/
def aside {α : Type} (act : Hosted α) : Loading κ α :=
  Effect.onPart Prod.snd (fun (options, _) host => (options, host)) act

/-- Take over the value of the variable into these options.  They are changed just before
the change is logged, and not at all if the value is bad. -/
def takeOver (options : Options (OptionKey κ)) (value : Bytes) : Loading κ Status :=
  match readTolerance value with
  | .error error => do
      aside (Host.logging (Log.say (Site.of "Options" 2) Level.warn
        ["ignoring $", .text toleranceVariable, ": ", .text error.status.render]))
      return Status.invalidArgument
        (concat ["$", .text toleranceVariable, ": ", .text error.status.message])
  | .ok tolerance => do
      modify fun (_, host) => (some (options.set .validation { toleranceMs := tolerance }), host)
      aside (Host.logging (Log.say (Site.of "Options" 3) (Level.verbose 1)
        ["clock skew tolerance set to ", .text (Decimal.ofUInt64 tolerance), "ms from $",
          .text toleranceVariable]))
      return Status.ok

/-- Take over the tolerance from the environment, if it is set and trusted, into
options that must be given. -/
def loadEnvironment : Loading κ Status := do
  let (given, _) ← MonadState.get
  let options ← aside (Host.logging
    (Log.Check.present (Site.of "Options" 1) (ascii "opts") given))
  match ← aside (Host.environmentStep (Environment.lookup toleranceVariable)) with
  | none => return Status.ok
  | some value => takeOver options value

end TokenMint.Options
