/-!
# Tables

A table holds at most one value for each key, and the type of a value may
depend on its key.  `find?` is the view through which tables are understood:
inserting and erasing change it at one key only.
-/

namespace TokenMint

universe u v

/-- A finite map from keys to values whose type depends on the key. -/
structure Table (κ : Type u) (ν : κ → Type v) where
  entries : List ((key : κ) × ν key)

namespace Table

variable {κ : Type u} {ν : κ → Type v} [DecidableEq κ]

def empty : Table κ ν :=
  ⟨[]⟩

instance : Inhabited (Table κ ν) :=
  ⟨empty⟩

/-- The first value stored under `key` in a list of entries. -/
def lookup (key : κ) : List ((key : κ) × ν key) → Option (ν key)
  | [] => none
  | entry :: rest =>
      if heq : entry.1 = key then some (heq ▸ entry.2) else lookup key rest

def find? (table : Table κ ν) (key : κ) : Option (ν key) :=
  lookup key table.entries

def contains (table : Table κ ν) (key : κ) : Bool :=
  (table.find? key).isSome

/-- Drop the value of `key`, if there is one. -/
def erase (table : Table κ ν) (key : κ) : Table κ ν :=
  ⟨table.entries.filter fun entry => entry.1 ≠ key⟩

/-- Store `value` under `key`, in place of any older value. -/
def insert (table : Table κ ν) (key : κ) (value : ν key) : Table κ ν :=
  ⟨⟨key, value⟩ :: (table.erase key).entries⟩

/-- Store every entry of another table. -/
def insertAll (table other : Table κ ν) : Table κ ν :=
  other.entries.foldr (fun entry stored => stored.insert entry.1 entry.2) table

@[simp]
theorem find?_empty (key : κ) : (empty : Table κ ν).find? key = none :=
  rfl

@[simp]
theorem find?_erase_self (table : Table κ ν) (key : κ) :
    (table.erase key).find? key = none := by
  obtain ⟨entries⟩ := table
  simp only [find?, erase]
  induction entries with
  | nil => rfl
  | cons entry rest ih =>
      by_cases heq : entry.1 = key
      · simpa [heq] using ih
      · simpa [heq, lookup] using ih

theorem find?_erase_of_ne (table : Table κ ν) {key other : κ} (hne : other ≠ key) :
    (table.erase key).find? other = table.find? other := by
  obtain ⟨entries⟩ := table
  simp only [find?, erase]
  induction entries with
  | nil => rfl
  | cons entry rest ih =>
      by_cases hkey : entry.1 = key
      · have hother : ¬ entry.1 = other := fun heq => hne (heq.symm.trans hkey)
        have hkeep : lookup other (entry :: rest) = lookup other rest := by
          simp [lookup, hother]
        rw [List.filter_cons_of_neg (by simp [hkey]), ih, hkeep]
      · rw [List.filter_cons_of_pos (by simp [hkey])]
        simp only [lookup, ih]

@[simp]
theorem find?_insert_self (table : Table κ ν) (key : κ) (value : ν key) :
    (table.insert key value).find? key = some value := by
  simp [find?, insert, lookup]

theorem find?_insert_of_ne (table : Table κ ν) {key other : κ} (hne : other ≠ key)
    (value : ν key) : (table.insert key value).find? other = table.find? other := by
  have herase := find?_erase_of_ne table hne
  have hkey : ¬ key = other := fun heq => hne heq.symm
  simpa [find?, insert, lookup, hkey] using herase

/-- What is stored entry by entry in an empty table is found as it was. -/
@[simp]
theorem find?_insertAll_empty (other : Table κ ν) (key : κ) :
    (empty.insertAll other).find? key = other.find? key := by
  obtain ⟨entries⟩ := other
  change (entries.foldr _ empty).find? key = lookup key entries
  induction entries with
  | nil => rfl
  | cons entry rest ih =>
      obtain ⟨name, value⟩ := entry
      rw [List.foldr_cons, lookup]
      split
      case isTrue heq =>
        subst heq
        exact find?_insert_self _ _ _
      case isFalse hne =>
        rw [find?_insert_of_ne _ (Ne.symm hne), ih]

end Table

end TokenMint
