import TokenMint.Options.Pool

/-!
# Histories of option containers

What a container reads for a class follows from the operations before.  Looking back along
them, the last one that stored, dropped or replaced the value decides.  A copy sends the
search on to its source as it stood then, so later operations on either side do not reach
the other.
-/

namespace TokenMint

namespace OptionPool

/-- Who holds option values: a container under its name, or the process as its defaults. -/
inductive Holder (ι : Type) where
  | container (name : ι)
  | defaults
deriving DecidableEq

variable {ι κ : Type} [OptionClasses κ]

/-- Where the value of a class comes from that a holder has after an operation. -/
inductive Origin (ι : Type) {κ : Type} [OptionClasses κ] (key : κ) where
  /-- The operation left it as it was. -/
  | kept
  /-- The operation looked it up and changed it. -/
  | changed (change : OptionClasses.Value key → OptionClasses.Value key)
  /-- The operation left no value. -/
  | dropped
  /-- The operation took what another holder had. -/
  | copied (source : Holder ι)

/-- The value of this origin, given what each holder had before. -/
def Origin.value {key : κ} (before : Holder ι → Option (OptionClasses.Value key))
    (holder : Holder ι) : Origin ι key → Option (OptionClasses.Value key)
  | .kept => before holder
  | .changed change => some (change ((before holder).getD (OptionClasses.default key)))
  | .dropped => none
  | .copied source => before source

/-- The operations that concern one class of one container. -/
inductive Edit.Concerns : Edit ι κ → ι → κ → Prop
  | update (name : ι) (key : κ) (change : OptionClasses.Value key → OptionClasses.Value key) :
      Concerns (.update name key change) name key
  | reset (name : ι) (key : κ) : Concerns (.reset name key) name key

/-- The operations that make one holder a copy of another. -/
inductive Edit.Copies : Edit ι κ → Holder ι → Holder ι → Prop
  | copy (name source : ι) : Copies (.copy name source) (.container name) (.container source)
  | readDefaults (name : ι) : Copies (.readDefaults name) (.container name) .defaults
  | writeDefaults (source : ι) : Copies (.writeDefaults source) .defaults (.container source)

variable [DecidableEq ι]

/-- The holders that an operation may change. -/
def Edit.targets : Edit ι κ → List (Holder ι)
  | .create name | .update name _ _ | .reset name _ | .copy name _ | .readDefaults name =>
      [.container name]
  | .move name source => if name = source then [] else [.container name, .container source]
  | .writeDefaults _ => [.defaults]

section Containers

variable (pool : OptionPool ι κ) (options : Options κ) (name : ι)

@[simp]
theorem find_put_self : (pool.put name options).find name = options := by
  rw [find, put, Table.find?_insert_self, Option.getD_some]

theorem find_put_of_ne {other : ι} (hne : other ≠ name) :
    (pool.put name options).find other = pool.find other := by
  rw [find, put, Table.find?_insert_of_ne pool.containers hne options, find]

@[simp]
theorem find_mention (other : ι) : (pool.mention name).find other = pool.find other := by
  by_cases heq : other = name
  · rw [heq, mention, find_put_self]
  · rw [mention, find_put_of_ne pool _ name heq]

@[simp]
theorem find_drop_self : (pool.drop name).find name = Options.empty := by
  rw [find, drop, Table.find?_erase_self, Option.getD_none]

theorem find_drop_of_ne {other : ι} (hne : other ≠ name) :
    (pool.drop name).find other = pool.find other := by
  rw [find, drop, Table.find?_erase_of_ne pool.containers hne, find]

end Containers

variable [DecidableEq κ]

def Edit.origin : Edit ι κ → Holder ι → (key : κ) → Origin ι key
  | .create name, holder, _ => if holder = .container name then .dropped else .kept
  | .update name changed change, holder, key =>
      if holder = .container name then
        if heq : changed = key then .changed (heq ▸ change) else .kept
      else .kept
  | .reset name dropped, holder, key =>
      if holder = .container name ∧ dropped = key then .dropped else .kept
  | .copy name source, holder, _ =>
      if holder = .container name then .copied (.container source) else .kept
  | .move name source, holder, _ =>
      if name = source then .kept
      else if holder = .container source then .dropped
      else if holder = .container name then .copied (.container source)
      else .kept
  | .readDefaults name, holder, _ => if holder = .container name then .copied .defaults else .kept
  | .writeDefaults source, holder, _ =>
      if holder = .defaults then .copied (.container source) else .kept

/-- The value that a holder has for a class after these operations, the latest of them first,
by looking back to the last one that decides. -/
def lookBack : List (Edit ι κ) → Holder ι → (key : κ) → Option (OptionClasses.Value key)
  | [], _, _ => none
  | edit :: earlier, holder, key =>
      (edit.origin holder key).value (fun source => lookBack earlier source key) holder

def held (pool : OptionPool ι κ) : Holder ι → Options κ
  | .container name => pool.find name
  | .defaults => pool.defaults

/-- The value that a holder has for a class, if it has one. -/
def entry (pool : OptionPool ι κ) (holder : Holder ι) (key : κ) :
    Option (OptionClasses.Value key) :=
  (pool.held holder).values.find? key

/-- Without the test for one name, a copy of a container onto itself would clear it. -/
theorem find_refill_self (pool : OptionPool ι κ) (name : ι) :
    (pool.refill name name).find name = Options.empty := by
  rw [refill, find_put_self, find_put_self]
  rfl

theorem refill_of_ne (pool : OptionPool ι κ) {name source : ι} (hne : source ≠ name) :
    pool.refill name source = (pool.put name Options.empty).put name (pool.find source).copy := by
  rw [refill, find_put_self, find_put_of_ne pool _ name hne, Options.copy]

section Entries

variable (pool : OptionPool ι κ) (holder : Holder ι) (key : κ)

@[simp]
theorem entry_fresh : (fresh : OptionPool ι κ).entry holder key = none := by
  cases holder with
  | container name => rfl
  | defaults => rfl

@[simp]
theorem entry_put (name : ι) (options : Options κ) :
    (pool.put name options).entry holder key =
      if holder = .container name then options.values.find? key else pool.entry holder key := by
  cases holder with
  | container other =>
      by_cases heq : other = name
      · rw [heq, if_pos rfl, entry, held, find_put_self]
      · have hne : Holder.container other ≠ .container name := by simpa using heq
        rw [if_neg hne, entry, held, find_put_of_ne pool options name heq, entry, held]
  | defaults => rfl

@[simp]
theorem entry_mention (name : ι) :
    (pool.mention name).entry holder key = pool.entry holder key := by
  cases holder with
  | container other => rw [entry, held, find_mention, entry, held]
  | defaults => rfl

@[simp]
theorem entry_drop (name : ι) :
    (pool.drop name).entry holder key =
      if holder = .container name then none else pool.entry holder key := by
  cases holder with
  | container other =>
      by_cases heq : other = name
      · rw [heq, if_pos rfl, entry, held, find_drop_self]
        rfl
      · have hne : Holder.container other ≠ .container name := by simpa using heq
        rw [if_neg hne, entry, held, find_drop_of_ne pool name heq, entry, held]
  | defaults => rfl

/-- What an operation does to the values of all holders. -/
theorem entry_apply (edit : Edit ι κ) :
    (pool.apply edit).entry holder key =
      (edit.origin holder key).value (fun source => pool.entry source key) holder := by
  cases edit with
  | create name =>
      rw [apply, entry_put, Edit.origin]
      split
      · rfl
      · rfl
  | update name changed change =>
      rw [apply, entry_put, Edit.origin]
      split
      case isTrue hholder =>
        subst hholder
        split
        case isTrue heq =>
          subst heq
          exact Table.find?_insert_self _ _ _
        case isFalse hne => exact Table.find?_insert_of_ne _ (Ne.symm hne) _
      case isFalse hother => rfl
  | reset name dropped =>
      rw [apply, entry_put, Edit.origin]
      by_cases hholder : holder = .container name
      · subst hholder
        by_cases heq : dropped = key
        · subst heq
          rw [if_pos rfl, if_pos ⟨rfl, rfl⟩]
          exact Table.find?_erase_self _ _
        · rw [if_pos rfl, if_neg (fun hboth => heq hboth.2)]
          exact Table.find?_erase_of_ne _ (Ne.symm heq)
      · rw [if_neg hholder, if_neg (fun hboth => hholder hboth.1)]
        rfl
  | copy name source =>
      rw [apply, Edit.origin]
      by_cases hself : name = source
      · subst hself
        rw [if_pos rfl, entry_mention]
        split
        case isTrue hholder => rw [hholder, Origin.value]
        case isFalse hother => rw [Origin.value]
      · rw [if_neg hself, refill_of_ne _ (Ne.symm hself), entry_put, entry_put, find_mention,
          entry_mention, Options.find?_copy]
        split
        · rfl
        · rfl
  | move name source =>
      rw [apply, Edit.origin]
      by_cases hself : name = source
      · rw [if_pos hself, if_pos hself, entry_mention, Origin.value]
      · rw [if_neg hself, if_neg hself, entry_drop, entry_put]
        split
        · rfl
        · split
          · rfl
          · rfl
  | readDefaults name =>
      rw [apply, entry_put, Edit.origin, Options.find?_copy]
      split
      · rfl
      · rfl
  | writeDefaults source =>
      rw [Edit.origin]
      cases holder with
      | container name => exact pool.entry_mention (.container name) key source
      | defaults => exact Options.find?_copy (pool.find source) key

end Entries

section Frames

variable (pool : OptionPool ι κ) {edit : Edit ι κ} {holder target source : Holder ι}

theorem Edit.origin_of_notMem (hnot : holder ∉ edit.targets) (key : κ) :
    edit.origin holder key = .kept := by
  cases edit with
  | create name | update name changed change | readDefaults name | copy name source =>
      rw [Edit.origin, if_neg (List.ne_of_not_mem_cons hnot)]
  | reset name dropped =>
      rw [Edit.origin, if_neg fun hboth => List.ne_of_not_mem_cons hnot hboth.1]
  | move name source =>
      rw [Edit.targets] at hnot
      rw [Edit.origin]
      split
      · rfl
      · rw [if_neg ‹_›, List.mem_cons, List.mem_singleton, not_or] at hnot
        rw [if_neg hnot.2, if_neg hnot.1]
  | writeDefaults source =>
      rw [Edit.origin, if_neg (List.ne_of_not_mem_cons hnot)]

/-- An operation keeps the values of all holders but its targets. -/
theorem entry_apply_of_notMem (hnot : holder ∉ edit.targets) (key : κ) :
    (pool.apply edit).entry holder key = pool.entry holder key := by
  rw [entry_apply, Edit.origin_of_notMem hnot, Origin.value]

/-- Operations that do not decide about a value keep it. -/
theorem entry_run_of_kept {edits : List (Edit ι κ)} {key : κ}
    (hkept : ∀ edit ∈ edits, edit.origin holder key = .kept) :
    (pool.run edits).entry holder key = pool.entry holder key := by
  induction edits generalizing pool with
  | nil => rfl
  | cons edit rest ih =>
      have hrest := ih (pool.apply edit) fun next hnext =>
        hkept next (List.mem_cons_of_mem edit hnext)
      have hstep := entry_apply pool holder key edit
      rw [hkept edit List.mem_cons_self, Origin.value] at hstep
      exact hrest.trans hstep

theorem entry_run_of_notMem {edits : List (Edit ι κ)}
    (hnot : ∀ edit ∈ edits, holder ∉ edit.targets) (key : κ) :
    (pool.run edits).entry holder key = pool.entry holder key :=
  entry_run_of_kept pool fun edit hedit => Edit.origin_of_notMem (hnot edit hedit) key

/-- An operation on one class of one container keeps all other values. -/
theorem entry_apply_of_concerns {name : ι} {key : κ} (hconcerns : edit.Concerns name key)
    {other : κ} (hne : ¬ (holder = .container name ∧ other = key)) :
    (pool.apply edit).entry holder other = pool.entry holder other := by
  rw [entry_apply]
  cases hconcerns with
  | update name key change =>
      rw [Edit.origin]
      split
      case isTrue hholder =>
        have hkey : key ≠ other := fun heq => hne ⟨hholder, heq.symm⟩
        rw [dif_neg hkey, Origin.value]
      case isFalse hother => rfl
  | reset name key =>
      rw [Edit.origin, if_neg fun hboth => hne ⟨hboth.1, hboth.2.symm⟩, Origin.value]

/-- After a copy both sides have what the source had. -/
theorem entry_apply_of_copies (hcopies : edit.Copies target source) (key : κ) :
    (pool.apply edit).entry target key = pool.entry source key ∧
      (pool.apply edit).entry source key = pool.entry source key := by
  rw [entry_apply, entry_apply]
  cases hcopies with
  | copy name source =>
      rw [Edit.origin, if_pos rfl, Edit.origin]
      refine ⟨rfl, ?_⟩
      split
      · rfl
      · rfl
  | readDefaults name =>
      rw [Edit.origin, if_pos rfl]
      exact ⟨rfl, rfl⟩
  | writeDefaults source => exact ⟨rfl, rfl⟩

end Frames

/-- An operation keeps the values to those that looking back gives. -/
theorem entry_apply_eq_lookBack {past : List (Edit ι κ)} {pool : OptionPool ι κ}
    (hpool : ∀ holder key, pool.entry holder key = lookBack past holder key)
    (edit : Edit ι κ) (holder : Holder ι) (key : κ) :
    (pool.apply edit).entry holder key = lookBack (edit :: past) holder key := by
  rw [entry_apply, lookBack]
  simp only [hpool]

/-- What a program does with its containers: an operation, or a look at a class that changes
nothing. -/
inductive Action (ι κ : Type) [OptionClasses κ] where
  | perform (edit : Edit ι κ)
  | look (name : ι) (key : κ)

def Action.edit? : Action ι κ → Option (Edit ι κ)
  | .perform edit => some edit
  | .look _ _ => none

/-- What a look at a class sees: whether there is a value, and the value as it reads. -/
structure Sight (κ : Type) [OptionClasses κ] where
  key : κ
  has : Bool
  value : OptionClasses.Value key

def look (pool : OptionPool ι κ) (name : ι) (key : κ) : Sight κ :=
  ⟨key, (pool.find name).has key, (pool.find name).get key⟩

/-- What the looks of a program see, and the containers that it leaves. -/
def observe (pool : OptionPool ι κ) : List (Action ι κ) → List (Sight κ) × OptionPool ι κ
  | [] => ([], pool)
  | .perform edit :: rest => (pool.apply edit).observe rest
  | .look name key :: rest =>
      let (sights, last) := pool.observe rest
      (pool.look name key :: sights, last)

/-- What the looks of a program ought to see after these operations, the latest of them
first. -/
def expectedSights (past : List (Edit ι κ)) : List (Action ι κ) → List (Sight κ)
  | [] => []
  | .perform edit :: rest => expectedSights (edit :: past) rest
  | .look name key :: rest =>
      ⟨key, (lookBack past (.container name) key).isSome,
        (lookBack past (.container name) key).getD (OptionClasses.default key)⟩ ::
        expectedSights past rest

theorem observe_eq {past : List (Edit ι κ)} {pool : OptionPool ι κ}
    (hpool : ∀ holder key, pool.entry holder key = lookBack past holder key)
    (actions : List (Action ι κ)) :
    pool.observe actions =
      (expectedSights past actions, pool.run (actions.filterMap Action.edit?)) := by
  induction actions generalizing past pool with
  | nil => rfl
  | cons action rest ih =>
      cases action with
      | perform edit => exact ih (entry_apply_eq_lookBack hpool edit)
      | look name key =>
          have hlook : pool.look name key =
              ⟨key, (pool.entry (.container name) key).isSome,
                (pool.entry (.container name) key).getD (OptionClasses.default key)⟩ := rfl
          have hdrop : (Action.look name key :: rest).filterMap Action.edit? =
              rest.filterMap Action.edit? := rfl
          rw [observe, ih hpool, expectedSights, hlook, hpool, hdrop]

variable (ι κ)

/-- Option containers answer as their history says.  Whatever a program does, each look sees
the value that was last stored in the container or copied into it, if it was not dropped or
replaced since, and otherwise the default; and looks change nothing.  A value is what the last
operation made of it that decided about it.  An operation on one class of one container keeps
every other value, any operation keeps the holders that it does not change, and a copy leaves
on both sides what the source had, for as long as a side is not written to itself. -/
theorem options_follow_history :
    (∀ actions : List (Action ι κ),
      fresh.observe actions =
        (expectedSights [] actions, fresh.run (actions.filterMap Action.edit?))) ∧
    (∀ (front back : List (Edit ι κ)) (edit : Edit ι κ) (holder : Holder ι) (key : κ),
      (∀ next ∈ back, next.origin holder key = .kept) →
        (fresh.run (front ++ edit :: back)).entry holder key =
          (edit.origin holder key).value (fun source => (fresh.run front).entry source key)
            holder) ∧
    (∀ (pool : OptionPool ι κ) (edit : Edit ι κ) (name : ι) (key : κ), edit.Concerns name key →
      ∀ holder other, ¬ (holder = .container name ∧ other = key) →
        (pool.apply edit).entry holder other = pool.entry holder other) ∧
    (∀ (pool : OptionPool ι κ) (edit : Edit ι κ) (holder : Holder ι), holder ∉ edit.targets →
      ∀ key, (pool.apply edit).entry holder key = pool.entry holder key) ∧
    ∀ (pool : OptionPool ι κ) (edit : Edit ι κ) (target source : Holder ι),
      edit.Copies target source → ∀ (key : κ) (later : List (Edit ι κ)),
        ((∀ next ∈ later, target ∉ next.targets) →
          ((pool.apply edit).run later).entry target key = pool.entry source key) ∧
        ((∀ next ∈ later, source ∉ next.targets) →
          ((pool.apply edit).run later).entry source key = pool.entry source key) := by
  have hfresh : ∀ holder key,
      (fresh : OptionPool ι κ).entry holder key = lookBack ([] : List (Edit ι κ)) holder key :=
    entry_fresh
  refine ⟨observe_eq hfresh, ?_, ?_, ?_, ?_⟩
  · intro front back edit holder key hkept
    have hsplit : (fresh : OptionPool ι κ).run (front ++ edit :: back) =
        ((fresh.run front).apply edit).run back := List.foldl_append
    rw [hsplit, entry_run_of_kept _ hkept, entry_apply]
  · intro pool edit name key hconcerns holder other hne
    exact entry_apply_of_concerns pool hconcerns hne
  · intro pool edit holder hnot key
    exact entry_apply_of_notMem pool hnot key
  · intro pool edit target source hcopies key later
    obtain ⟨htarget, hsource⟩ := entry_apply_of_copies pool hcopies key
    exact ⟨fun hnot => (entry_run_of_notMem _ hnot key).trans htarget,
      fun hnot => (entry_run_of_notMem _ hnot key).trans hsource⟩

/-- Two option classes: a level, and a switch. -/
inductive Dial where
  | level
  | switch
deriving DecidableEq

instance : OptionClasses Dial where
  Value
    | .level => Nat
    | .switch => Bool
  default
    | .level => (42 : Nat)
    | .switch => true

/-- A container gets a level, and its program assigns it to itself. -/
def selfAssigned : List (Edit Nat Dial) :=
  [.update 0 .level fun (_ : Nat) => (7 : Nat), .copy 0 0]

/-- The container then reaches another one through the defaults, and both are changed. -/
def handedOver : List (Action Nat Dial) :=
  .look 0 .level :: selfAssigned.map .perform ++
    [.perform (.writeDefaults 0), .perform (.readDefaults 1),
      .perform (.update 1 .level fun (level : Nat) => level + 1), .perform (.reset 0 .level),
      .look 0 .level, .look 1 .level, .look 1 .switch]

/-- The level outlasts the assignment to itself, and each side goes its own way afterwards. -/
theorem handed_over_apart :
    (fresh.observe handedOver).1 =
        [⟨.level, false, (42 : Nat)⟩, ⟨.level, false, (42 : Nat)⟩, ⟨.level, true, (8 : Nat)⟩,
          ⟨.switch, false, true⟩] ∧
      (fresh.run selfAssigned).entry (.container 0) .level = some (7 : Nat) ∧
      ((fresh.run selfAssigned).apply (.reset 0 .switch)).entry (.container 0) .level =
        some (7 : Nat) ∧
      ((fresh.run selfAssigned).apply (.create 1)).entry (.container 0) .level =
        some (7 : Nat) ∧
      (((fresh.run selfAssigned).apply (.copy 1 0)).run [.reset 0 .level]).entry (.container 1)
        .level = some (7 : Nat) ∧
      (((fresh.run selfAssigned).apply (.copy 1 0)).run [.reset 1 .level]).entry (.container 0)
        .level = some (7 : Nat) := by
  obtain ⟨hobserve, hlast, hclass, hholder, hcopy⟩ := options_follow_history Nat Dial
  have hseven : (fresh.run selfAssigned).entry (.container 0) .level = some (7 : Nat) :=
    hlast (selfAssigned.take 1) [] (.copy 0 0) (.container 0) .level nofun
  obtain ⟨htarget, -⟩ := hcopy (fresh.run selfAssigned) (.copy 1 0) _ _ (.copy 1 0) .level
    [.reset 0 .level]
  obtain ⟨-, hsource⟩ := hcopy (fresh.run selfAssigned) (.copy 1 0) _ _ (.copy 1 0) .level
    [.reset 1 .level]
  refine ⟨?_, hseven, ?_, ?_, ?_, ?_⟩
  · rw [hobserve]
    rfl
  · exact (hclass _ _ 0 Dial.switch (.reset 0 Dial.switch) _ _ (by decide)).trans hseven
  · exact (hholder _ (.create 1) _ (by decide) _).trans hseven
  · exact (htarget (by decide)).trans hseven
  · exact (hsource (by decide)).trans hseven

end OptionPool

end TokenMint
