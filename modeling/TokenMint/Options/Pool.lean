import TokenMint.Options.Basic

/-!
# Option containers over time

A program has any number of option containers, each under a name, and one set of
defaults that belongs to the process.  Copies are independent of what they were
copied from.
-/

namespace TokenMint

/-- The option containers of a program, and the defaults of its process. -/
structure OptionPool (ι κ : Type) [OptionClasses κ] where
  containers : Table ι fun _ => Options κ
  defaults : Options κ

namespace OptionPool

variable {ι κ : Type} [OptionClasses κ]

/-- One operation on the containers of a program. -/
inductive Edit (ι κ : Type) [OptionClasses κ] where
  /-- Begin with an empty container. -/
  | create (name : ι)
  /-- Look up a value to change it, and change it. -/
  | update (name : ι) (key : κ) (change : OptionClasses.Value key → OptionClasses.Value key)
  /-- Drop the value of a class. -/
  | reset (name : ι) (key : κ)
  /-- Make `name` a copy of `source`. -/
  | copy (name source : ι)
  /-- Let the container of `source` continue under `name`, and only there. -/
  | move (name source : ι)
  /-- Take a copy of the defaults. -/
  | readDefaults (name : ι)
  /-- Make a copy of `source` the defaults. -/
  | writeDefaults (source : ι)

variable [DecidableEq ι] [DecidableEq κ]

/-- The pool of a fresh process. -/
def fresh : OptionPool ι κ :=
  ⟨Table.empty, Options.empty⟩

/-- The container of a name; empty if the name is new. -/
def find (pool : OptionPool ι κ) (name : ι) : Options κ :=
  (pool.containers.find? name).getD Options.empty

def put (pool : OptionPool ι κ) (name : ι) (options : Options κ) : OptionPool ι κ :=
  { pool with containers := pool.containers.insert name options }

/-- Names come into being when they are mentioned. -/
def mention (pool : OptionPool ι κ) (name : ι) : OptionPool ι κ :=
  pool.put name (pool.find name)

def drop (pool : OptionPool ι κ) (name : ι) : OptionPool ι κ :=
  { pool with containers := pool.containers.erase name }

/-- Clear the container of `name`, and then store in it what the container of `source`
holds. -/
def refill (pool : OptionPool ι κ) (name source : ι) : OptionPool ι κ :=
  let cleared := pool.put name Options.empty
  cleared.put name ((cleared.find name).absorb (cleared.find source))

def apply (pool : OptionPool ι κ) : Edit ι κ → OptionPool ι κ
  | .create name => pool.put name Options.empty
  | .update name key change => pool.put name ((pool.find name).update key change)
  | .reset name key => pool.put name ((pool.find name).reset key)
  | .copy name source =>
    if name = source then pool.mention name else (pool.mention source).refill name source
  | .move name source =>
    if name = source then pool.mention name else (pool.put name (pool.find source)).drop source
  | .readDefaults name => pool.put name pool.defaults.copy
  | .writeDefaults source => { pool.mention source with defaults := (pool.find source).copy }

/-- The pool after a run of operations, first operation first. -/
def run (pool : OptionPool ι κ) (edits : List (Edit ι κ)) : OptionPool ι κ :=
  edits.foldl apply pool

end OptionPool

end TokenMint
