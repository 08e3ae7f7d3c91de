import TokenMint.Bytes
import TokenMint.Table

/-!
# Options

Options are passed around in a container that holds at most one value of each
option class.  A class that was never touched reads as its default.  Looking a
value up to change it puts it into the container; looking it up to read it does
not.
-/

namespace TokenMint

/-- A family of option classes: what the values of each class are, and which of
them is the default. -/
class OptionClasses (κ : Type) where
  Value : κ → Type
  default : (key : κ) → Value key

/-- How validators judge tokens. -/
structure ValidationOptions where
  /-- How far ahead of the clock a timestamp may be, in milliseconds. -/
  toleranceMs : UInt64 := 3000
deriving DecidableEq, Repr, Inhabited

/-- The option classes of a program: validation, and its own ones. -/
inductive OptionKey (κ : Type) where
  | validation
  | own (key : κ)
deriving DecidableEq, Repr

instance {κ : Type} [OptionClasses κ] : OptionClasses (OptionKey κ) where
  Value
    | .validation => ValidationOptions
    | .own key => OptionClasses.Value key
  default
    | .validation => {}
    | .own key => OptionClasses.default key

/-- No option classes. -/
instance : OptionClasses Empty where
  Value key := nomatch key
  default key := nomatch key

/-- A container of option values. -/
structure Options (κ : Type) [OptionClasses κ] where
  values : Table κ OptionClasses.Value

namespace Options

variable {κ : Type} [OptionClasses κ] [DecidableEq κ]

def empty : Options κ :=
  ⟨Table.empty⟩

/-- Whether there is a value of a class. -/
def has (options : Options κ) (key : κ) : Bool :=
  options.values.contains key

/-- The value of a class as it reads: the one that is there, or the default. -/
def get (options : Options κ) (key : κ) : OptionClasses.Value key :=
  (options.values.find? key).getD (OptionClasses.default key)

/-- Change the value of a class, which is there from then on. -/
def update (options : Options κ) (key : κ)
    (change : OptionClasses.Value key → OptionClasses.Value key) : Options κ :=
  ⟨options.values.insert key (change (options.get key))⟩

def set (options : Options κ) (key : κ) (value : OptionClasses.Value key) : Options κ :=
  options.update key fun _ => value

/-- Look a value up to change it, and leave it as it is. -/
def touch (options : Options κ) (key : κ) : Options κ :=
  options.update key id

/-- Drop the value of a class. -/
def reset (options : Options κ) (key : κ) : Options κ :=
  ⟨options.values.erase key⟩

/-- Store every value that another container holds. -/
def absorb (options source : Options κ) : Options κ :=
  ⟨options.values.insertAll source.values⟩

/-- A container of its own with the same values. -/
def copy (options : Options κ) : Options κ :=
  empty.absorb options

@[simp]
theorem find?_copy (options : Options κ) (key : κ) :
    options.copy.values.find? key = options.values.find? key :=
  Table.find?_insertAll_empty options.values key

section Set

variable (options : Options κ) {key other : κ} (value : OptionClasses.Value key)

@[simp]
theorem find?_set_self : (options.set key value).values.find? key = some value :=
  Table.find?_insert_self options.values key value

theorem find?_set_of_ne (hne : other ≠ key) :
    (options.set key value).values.find? other = options.values.find? other :=
  Table.find?_insert_of_ne options.values hne value

@[simp]
theorem get_set_self : (options.set key value).get key = value := by
  rw [get, find?_set_self, Option.getD_some]

@[simp]
theorem has_set_self : (options.set key value).has key = true := by
  rw [has, Table.contains, find?_set_self, Option.isSome_some]

end Set

end Options

end TokenMint
