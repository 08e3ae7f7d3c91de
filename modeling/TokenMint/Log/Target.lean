import TokenMint.Effect
import TokenMint.Log.Entry

/-!
# Log targets

A target receives entries.  It is asked whether it wants them, handed those it
wants, and told to flush, and it may fail at each of these.  What it does may
depend on everything that has happened to the log so far, which the journal
tells.
-/

namespace TokenMint.Log

/-- Which target it is. -/
inductive TargetId where
  | standardError
  | named (name : Bytes)
deriving DecidableEq, Repr

/-- Something that happened to the log. -/
inductive Event where
  /-- A target was asked whether it wants entries of this place and level. -/
  | asked (target : TargetId) (site : Site) (level : Level)
  /-- An entry was handed to a target. -/
  | delivered (target : TargetId) (entry : Entry)
  /-- A target was told to flush. -/
  | flushed (target : TargetId)
  /-- A fault of a target was contained, and this was reported of it. -/
  | reported (what : Bytes)
deriving DecidableEq, Repr

/-- Everything that has happened, earliest first. -/
abbrev Journal := List Event

namespace Journal

/-- What one event puts on standard error: the line of an entry handed to that
target, or the report of a contained fault. -/
def lineOnStandardError : Event → Bytes
  | .delivered .standardError entry => entry.render
  | .reported what => concat ["base::log: target threw: ", .text what, "\n"]
  | _ => []

/-- What a journal has put on standard error. -/
def standardError (journal : Journal) : Bytes :=
  journal.flatMap lineOnStandardError

end Journal

/-- A destination for entries. -/
structure Target where
  id : TargetId
  wants : Journal → Site → Level → Except Fault Bool
  deliver : Journal → Entry → Except Fault Unit
  flush : Journal → Except Fault Unit

namespace Target

/-- The target that wants what `wanted` accepts and never fails. -/
def ofPredicate (id : TargetId) (wanted : Site → Level → Bool) : Target where
  id := id
  wants _ site level := .ok (wanted site level)
  deliver _ _ := .ok ()
  flush _ := .ok ()

/-- Standard error takes everything from informational messages on. -/
def standardError : Target :=
  ofPredicate .standardError fun _ level => level ≥ Level.info

/-- A target that takes every entry. -/
def everything (name : Bytes) : Target :=
  ofPredicate (.named name) fun _ _ => true

/-- What a scripted target takes, and the faults with which it answers. -/
structure Script where
  least : Level
  file : Option Bytes
  onWants : Option Fault
  onDeliver : Option Fault
  onFlush : Option Fault
deriving DecidableEq, Repr

/-- The script that takes every message that is not verbose and never fails. -/
def Script.plain : Script :=
  ⟨0, none, none, none, none⟩

/-- Answer with the fault, if there is one. -/
def Script.answer {α : Type} (fault : Option Fault) (value : α) : Except Fault α :=
  match fault with
  | some fault => .error fault
  | none => .ok value

/-- A target that takes one file, or all of them, from a least level on, and
fails as its script tells. -/
def scripted (name : Bytes) (script : Script) : Target where
  id := .named name
  wants _ site level :=
    Script.answer script.onWants
      ((script.file.isNone || script.file == site.file) && level ≥ script.least)
  deliver _ _ := Script.answer script.onDeliver ()
  flush _ := Script.answer script.onFlush ()

end Target

end TokenMint.Log
