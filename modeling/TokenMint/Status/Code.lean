import TokenMint.Bytes

/-!
# Outcome codes

An outcome is categorised by an 8-bit code.  Thirteen codes have names; every
other number is a code without a name.
-/

namespace TokenMint

/-- The category of an outcome. -/
structure Code where
  value : UInt8
deriving DecidableEq, Repr, Inhabited

namespace Code

/-- Success. -/
def ok : Code := ⟨0⟩

/-- A failure that fits no other code. -/
def unknown : Code := ⟨1⟩

/-- A failure that users should never see. -/
def internal : Code := ⟨2⟩

/-- The world was not in a state that the operation needs. -/
def failedPrecondition : Code := ⟨4⟩

/-- The resource does not exist. -/
def notFound : Code := ⟨5⟩

/-- The user may not do this. -/
def permissionDenied : Code := ⟨8⟩

/-- An argument makes no sense. -/
def invalidArgument : Code := ⟨10⟩

/-- An argument is outside its range. -/
def outOfRange : Code := ⟨11⟩

/-- The resource does not support the operation. -/
def notImplemented : Code := ⟨12⟩

/-- The resource is not available now. -/
def unavailable : Code := ⟨13⟩

/-- The system interrupted the operation. -/
def aborted : Code := ⟨14⟩

/-- A finite resource is used up. -/
def resourceExhausted : Code := ⟨15⟩

/-- Data was lost or corrupted. -/
def dataLoss : Code := ⟨17⟩

/-- The name of a code; empty for a number that names nothing. -/
def name (code : Code) : Bytes :=
  match code.value.toNat with
  | 0 => ascii "OK"
  | 1 => ascii "UNKNOWN"
  | 2 => ascii "INTERNAL"
  | 4 => ascii "FAILED_PRECONDITION"
  | 5 => ascii "NOT_FOUND"
  | 8 => ascii "PERMISSION_DENIED"
  | 10 => ascii "INVALID_ARGUMENT"
  | 11 => ascii "OUT_OF_RANGE"
  | 12 => ascii "NOT_IMPLEMENTED"
  | 13 => ascii "UNAVAILABLE"
  | 14 => ascii "ABORTED"
  | 15 => ascii "RESOURCE_EXHAUSTED"
  | 17 => ascii "DATA_LOSS"
  | _ => []

end Code

end TokenMint
