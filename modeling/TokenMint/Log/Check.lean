import TokenMint.Log.Logger
import TokenMint.Status.Basic

/-!
# Checks

A check states what must hold at some place of a program.  One that fails logs
the expression that it states; it ends the process while debug failures are
fatal, and a missing value always does.
-/

namespace TokenMint.Log

/-- A comparison of two values. -/
inductive Comparison where
  | eq
  | ne
  | lt
  | le
  | gt
  | ge
deriving DecidableEq, Repr

namespace Comparison

def symbol : Comparison → Bytes
  | eq => ascii "=="
  | ne => ascii "!="
  | lt => ascii "<"
  | le => ascii "<="
  | gt => ascii ">"
  | ge => ascii ">="

/-- Whether a comparison holds; equality and the strict order decide all six. -/
def holds {α : Type} (equal less : α → α → Bool) (comparison : Comparison) (a b : α) : Bool :=
  match comparison with
  | eq => equal a b
  | ne => !equal a b
  | lt => less a b
  | le => !less b a
  | gt => less b a
  | ge => !less a b

end Comparison

namespace Check

/-- The logger of a failed check, with the expression in its message. -/
def failure (site : Site) (what : List Part) : Logging Logger := do
  return (← Logger.start site 1 Level.debugFatal).add ("CHECK FAILED: " :: what)

/-- Check that an expression holds. -/
def holds (site : Site) (expression : Bytes) (value : Bool) (extra : List Part) :
    Logging Unit := do
  if !value then
    ((← failure site [.text expression]).add extra).finish

/-- Check that a status is a success. -/
def succeeds (site : Site) (expression : Bytes) (status : Status) (extra : List Part) :
    Logging Unit := do
  if !status.isOk then
    ((← failure site [.text expression, ": ", .text status.render]).add extra).finish

/-- The message about a comparison: both expressions, then both values. -/
def comparisonParts (symbol left right : Bytes) (a b : List Part) : List Part :=
  let opening : List Part := [.text left, " ", .text symbol, " ", .text right, " ["]
  let middle : List Part := [" ", .text symbol, " "]
  let closing : List Part := ["]"]
  opening ++ a ++ middle ++ b ++ closing

/-- Check that a comparison holds.  Its outcome is given, along with the two
values as they are printed. -/
def compares (site : Site) (comparison : Comparison) (outcome : Bool) (left right : Bytes)
    (a b : List Part) (extra : List Part) : Logging Unit := do
  if !outcome then
    ((← failure site (comparisonParts comparison.symbol left right a b)).add extra).finish

/-- Check that a value is present, and take it.  An absent value ends the
process, whatever the debug setting is. -/
def present {α : Type} (site : Site) (expression : Bytes) (value : Option α) : Logging α := do
  match value with
  | some value => pure value
  | none => do
      say site Level.fatal ["CHECK FAILED: ", .text expression, " != nullptr"]
      Effect.terminate

end Check

end TokenMint.Log
