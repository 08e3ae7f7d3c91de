import TokenMint.Bytes
import TokenMint.Table

/-!
# The environment of the process

A process that runs with more rights than its user has must not trust the
variables that the user set.  Whether it does is decided at the first look.
-/

namespace TokenMint

/-- For whom a process runs, and with whose rights. -/
structure Identity where
  user : Int
  effectiveUser : Int
  group : Int
  effectiveGroup : Int
deriving DecidableEq, Repr, Inhabited

/-- Whether a process has just the rights of its user. -/
def Identity.isPlain (identity : Identity) : Bool :=
  identity.user == identity.effectiveUser && identity.group == identity.effectiveGroup

/-- Who runs the process, its variables, and whether they are trusted if that
has been decided. -/
structure Environment where
  identity : Identity
  values : Table Bytes fun _ => Bytes
  trust : Option Bool

namespace Environment

def ofIdentity (identity : Identity) : Environment :=
  ⟨identity, Table.empty, none⟩

/-- Set a variable.  Its value ends at the first NUL. -/
def set (environment : Environment) (name value : Bytes) : Environment :=
  { environment with values := environment.values.insert name value.untilNul }

def unset (environment : Environment) (name : Bytes) : Environment :=
  { environment with values := environment.values.erase name }

/-- Whether the variables are trusted, which stays as it was decided first. -/
def isTrusted (environment : Environment) : Bool × Environment :=
  let trusted := environment.trust.getD environment.identity.isPlain
  (trusted, { environment with trust := some trusted })

/-- The value of a variable that is set and trusted. -/
def lookup (name : Bytes) (environment : Environment) : Option Bytes × Environment :=
  let (trusted, after) := environment.isTrusted
  (if trusted then after.values.find? name else none, after)

end Environment

end TokenMint
