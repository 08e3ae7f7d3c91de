import TokenMint.Status.Errno

/-!
# Effects

A computation over some state answers, raises a fault, or ends the process.
Whatever it has done to the state by then stays done.
-/

namespace TokenMint

/-- What a call raises instead of answering. -/
inductive Fault where
  /-- The caller broke a rule. -/
  | misuse (what : Bytes)
  /-- The call failed while it ran. -/
  | failure (what : Bytes)
  /-- A system call that the call relies on failed. -/
  | system (errno : Errno) (what : Bytes)
  /-- A bare number, which no guard knows how to contain. -/
  | foreign (value : Int)
deriving DecidableEq, Repr

namespace Fault

/-- What a fault tells about itself. -/
def message : Fault → Bytes
  | misuse what => what
  | failure what => what
  | system errno what => concat [.text what, ": ", .text errno.text]
  | foreign value => Decimal.ofInt value

/-- Whether a guard can contain the fault. -/
def isContainable : Fault → Bool
  | foreign _ => false
  | _ => true

end Fault

/-- Why a computation ended without an answer. -/
inductive Stop where
  | raised (fault : Fault)
  | terminated
deriving DecidableEq, Repr

/-- A computation over the state `σ`. -/
abbrev Effect (σ : Type) := ExceptT Stop (StateM σ)

namespace Effect

variable {σ τ α : Type}

def raise (fault : Fault) : Effect σ α :=
  throw (Stop.raised fault)

/-- End the process. -/
def terminate : Effect σ α :=
  throw Stop.terminated

/-- Answer with a value or raise the fault that stands in its place. -/
def ofExcept : Except Fault α → Effect σ α
  | .ok value => pure value
  | .error fault => raise fault

/-- Answer and change the state, which cannot fail. -/
def ofState (step : σ → α × σ) : Effect σ α :=
  ExceptT.lift step

/-- Run a computation on one part of a larger state. -/
def onPart (part : σ → τ) (replace : σ → τ → σ) (inner : Effect τ α) : Effect σ α :=
  fun state =>
    let (answer, changed) := inner (part state)
    (answer, replace state changed)

/-- Run a computation with one more cell of state.  The answer comes with what
the cell holds at the end. -/
def withCell (content : τ) (inner : Effect (τ × σ) α) : Effect σ (α × τ) :=
  fun state =>
    match inner (content, state) with
    | (.ok answer, (held, changed)) => (.ok (answer, held), changed)
    | (.error stop, (_, changed)) => (.error stop, changed)

/-- A boundary that no fault may cross: one that tries ends the process. -/
def confined (inner : Effect σ α) : Effect σ α :=
  fun state =>
    match inner state with
    | (.error (.raised _), changed) => (.error .terminated, changed)
    | outcome => outcome

end Effect

end TokenMint
