import TokenMint.Proofs.Layout
import TokenMint.Proofs.Runs

/-!
# The order of tokens

Tokens are compared by timestamp and then by counter, which makes a total preorder.
Among tokens with the same markers it is the order of numbers up to the random tail, so
tokens that are sorted as numbers are sorted by time.
-/

namespace TokenMint

namespace Token

open Std

/-- Two words decide by their order, and leave the rest to decide if they are equal. -/
theorem then_eq_ite (x y : UInt64) (rest : Ordering) :
    (Ord.compare x y).then rest = if x < y then .lt else if y < x then .gt else rest := by
  have hword : Ord.compare x y = if x < y then .lt else if x = y then .eq else .gt := rfl
  rw [hword]
  simp only [UInt64.lt_iff_toNat_lt, ← UInt64.toNat_inj]
  rcases Nat.lt_trichotomy x.toNat y.toNat with hlt | heq | hgt
  · simp [hlt]
  · simp [heq]
  · simp [hgt, Nat.lt_asymm hgt, Nat.ne_of_gt hgt]

theorem compare_eq_compareLex :
    compare = compareLex (compareOn timestamp) (compareOn counter) := by
  funext a b
  have hcounter : (Ord.compare a.counter b.counter).then .eq = Ord.compare a.counter b.counter :=
    Ordering.then_eq
  rw [compare, ← then_eq_ite a.counter b.counter, ← then_eq_ite a.timestamp b.timestamp, hcounter]
  rfl

instance : TransCmp compare := by
  rw [compare_eq_compareLex]
  infer_instance

section Compare

variable {a b : Token}

theorem compare_eq_eq_iff :
    a.compare b = .eq ↔ a.timestamp = b.timestamp ∧ a.counter = b.counter := by
  rw [compare_eq_compareLex, compareLex_eq_eq, compareOn, compareOn, Std.compare_eq_iff_eq,
    Std.compare_eq_iff_eq]

/-- Only a token that is compared as later does not come first or level. -/
theorem isLE_compare_iff : (a.compare b).isLE ↔ ¬ b.compare a = .lt := by
  have hswap : b.compare a = (a.compare b).swap := OrientedCmp.eq_swap
  rw [hswap]
  cases a.compare b with
  | lt => decide
  | eq => decide
  | gt => decide

theorem timestamp_le_of_isLE (hcompare : (a.compare b).isLE) : a.timestamp ≤ b.timestamp := by
  rw [isLE_compare_iff, compare_eq_lt_iff, not_or] at hcompare
  exact UInt64.not_lt.mp hcompare.1

theorem le_iff_not_lt : a.le b = true ↔ ¬ b.lt a = true := by
  rw [le, Word128.le, Bool.not_eq_true', Bool.not_eq_true]
  rfl

/-- Among tokens with the same markers, one that is no greater is compared as no later. -/
theorem isLE_compare_of_le (hversion : a.version = b.version) (hvariant : a.variant = b.variant)
    (hle : a.le b = true) : (a.compare b).isLE := by
  rw [isLE_compare_iff]
  intro hlater
  exact le_iff_not_lt.mp hle (lt_of_compare_eq_lt hversion.symm hvariant.symm hlater)

theorem isLE_compare_of_lt (hversion : a.version = b.version) (hvariant : a.variant = b.variant)
    (hlt : a.lt b = true) : (a.compare b).isLE := by
  apply isLE_compare_of_le hversion hvariant
  rw [le_iff_not_lt, lt_iff_toNat_lt]
  rw [lt_iff_toNat_lt] at hlt
  exact Nat.lt_asymm hlt

/-- Tokens that differ in the random tail alone are ordered by it. -/
theorem lt_iff_random_lt (hversion : a.version = b.version) (hvariant : a.variant = b.variant)
    (hcompare : a.compare b = .eq) : a.lt b = true ↔ a.random < b.random := by
  obtain ⟨htimestamp, hcounter⟩ := compare_eq_eq_iff.mp hcompare
  rw [lt_iff_toNat_lt, toNat_value, toNat_value, htimestamp, hversion, hvariant, hcounter,
    UInt64.lt_iff_toNat_lt, Nat.add_lt_add_iff_left]

end Compare

/-- Tokens with the same markers that are sorted as numbers are sorted by time. -/
theorem sorted_by_compare {tokens : List Token}
    (hmarkers : ∀ a ∈ tokens, ∀ b ∈ tokens, a.version = b.version ∧ a.variant = b.variant)
    (hsorted : tokens.Pairwise fun a b => a.le b = true) :
    tokens.Pairwise fun a b => (a.compare b).isLE := by
  refine hsorted.imp_of_mem ?_
  intro a b ha hb hle
  obtain ⟨hversion, hvariant⟩ := hmarkers a ha b hb
  exact isLE_compare_of_le hversion hvariant hle

end Token

namespace Mint

/-- Every token that a run hands over has the standard markers. -/
theorem markers_of_mem_tokens {mint : Mint} {occasions : List Occasion} {token : Token}
    (htoken : token ∈ mint.tokens occasions) :
    token.version = Token.standardVersion ∧ token.variant = Token.standardVariant := by
  induction occasions generalizing mint with
  | nil => exact absurd htoken List.not_mem_nil
  | cons occasion rest ih =>
      rw [tokens_cons, List.mem_append, Option.mem_toList] at htoken
      rcases htoken with hfirst | hrest
      · rcases fails_or_meets mint occasion.host with
          ⟨answer, later, hfails⟩ | ⟨bytes, now, hmeets⟩
        · rw [token?_of_failsWith hfails] at hfirst
          contradiction
        · rw [(turn_of_meets hmeets).2.2 token hfirst, Generator.token_commit]
          exact ⟨Token.version_pack _ _ _, Token.variant_pack _ _ _⟩
      · exact ih hrest

end Mint

namespace Token

open Std

/-- The comparison turns with its arguments, is transitive, and is level exactly on equal
timestamps and counters.  Among tokens with the same markers it never contradicts the
order of numbers, which says more about the random tail alone.  So whoever sorts the
tokens of a run as numbers has sorted them by time. -/
theorem compare_total_and_compatible :
    (∀ a b : Token, a.compare b = (b.compare a).swap) ∧
    (∀ a b c : Token, (a.compare b).isLE → (b.compare c).isLE → (a.compare c).isLE) ∧
    (∀ (a b c : Token) (outcome : Ordering),
      a.compare b = outcome → b.compare c = outcome → a.compare c = outcome) ∧
    (∀ a b : Token, a.compare b = .eq ↔ a.timestamp = b.timestamp ∧ a.counter = b.counter) ∧
    (∀ a b : Token, a.version = b.version → a.variant = b.variant →
      (a.compare b = .lt → a.lt b = true) ∧
        (a.lt b = true → (a.compare b).isLE) ∧
        (a.compare b = .eq → (a.lt b = true ↔ a.random < b.random))) ∧
    (∀ tokens : List Token,
      (∀ a ∈ tokens, ∀ b ∈ tokens, a.version = b.version ∧ a.variant = b.variant) →
      (tokens.Pairwise fun a b => a.le b = true) →
        tokens.Pairwise fun a b => (a.compare b).isLE) ∧
    ∀ (mint : Mint) (occasions : List Mint.Occasion) (sorted : List Token),
      sorted.Perm (mint.tokens occasions) → (sorted.Pairwise fun a b => a.le b = true) →
        sorted.Pairwise fun a b => (a.compare b).isLE := by
  refine ⟨?_, ?_, ?_, ?_, ?_, ?_, ?_⟩
  · intro a b
    exact OrientedCmp.eq_swap
  · intro a b c hfirst hsecond
    exact TransCmp.isLE_trans hfirst hsecond
  · intro a b c outcome hfirst hsecond
    cases outcome with
    | lt => exact TransCmp.lt_trans hfirst hsecond
    | eq => exact TransCmp.eq_trans hfirst hsecond
    | gt => exact TransCmp.gt_trans hfirst hsecond
  · intro a b
    exact compare_eq_eq_iff
  · intro a b hversion hvariant
    exact ⟨lt_of_compare_eq_lt hversion hvariant, isLE_compare_of_lt hversion hvariant,
      lt_iff_random_lt hversion hvariant⟩
  · intro tokens hmarkers hsorted
    exact sorted_by_compare hmarkers hsorted
  · intro mint occasions sorted hperm hsorted
    refine sorted_by_compare ?_ hsorted
    intro a ha b hb
    obtain ⟨hversion, hvariant⟩ := Mint.markers_of_mem_tokens (hperm.mem_iff.mp ha)
    obtain ⟨hversion', hvariant'⟩ := Mint.markers_of_mem_tokens (hperm.mem_iff.mp hb)
    exact ⟨hversion.trans hversion'.symm, hvariant.trans hvariant'.symm⟩

/-- Two tokens of one position are ordered by their tails, and a third one comes behind
them whatever its tail is. -/
theorem level_tokens_sorted :
    let first := pack 1000 0 7
    let level := pack 1000 0 9
    let last := pack 1000 1 5
    (first.compare last).isLE ∧
      (first.lt level = true ↔ first.random < level.random) ∧
      ([first, level, last].Pairwise fun a b => (a.compare b).isLE) ∧
      (Mint.scripted.tokens Mint.jitter).Pairwise fun a b => (a.compare b).isLE := by
  intro first level last
  obtain ⟨-, htrans, -, -, hnumbers, hsorted, hruns⟩ := compare_total_and_compatible
  have hlevel : first.compare level = .eq := by decide
  have hbehind : (level.compare last).isLE := by decide
  refine ⟨htrans first level last (by decide) hbehind, ?_, ?_, ?_⟩
  · exact (hnumbers first level (by decide) (by decide)).2.2 hlevel
  · exact hsorted _ (by decide) (by decide)
  · exact hruns Mint.scripted Mint.jitter _ (List.Perm.refl _) (by decide)

end Token

end TokenMint
