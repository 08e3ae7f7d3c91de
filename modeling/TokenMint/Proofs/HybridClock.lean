import Mathlib.Data.Finset.Lattice.Fold
import Mathlib.Order.Lattice.Nat
import TokenMint.Proofs.BigEndian
import TokenMint.Proofs.Layout
import TokenMint.Proofs.Runs

/-!
# The hybrid clock

The positions of a generator are those of a hybrid clock: each reading sets a
position, and every mint since that reading moves it one place on.  The furthest
of these is the position of the next token.
-/

namespace TokenMint

/-- The hybrid clock at mint `k`, when mint `i` reads `now i`. -/
def hybrid (now : Nat → UInt64) (k : Nat) : Nat :=
  (Finset.range (k + 1)).sup fun i => 4096 * (now i).toNat + (k - i)

section Hybrid

variable (now : Nat → UInt64) (k : Nat)

theorem hybrid_zero : hybrid now 0 = 4096 * (now 0).toNat := by
  simp [hybrid]

theorem hybrid_le_iff {bound : Nat} :
    hybrid now k ≤ bound ↔ ∀ i ≤ k, 4096 * (now i).toNat + (k - i) ≤ bound := by
  rw [hybrid, Finset.sup_le_iff]
  constructor
  · intro hall i hi
    exact hall i (Finset.mem_range_succ_iff.mpr hi)
  · intro hall i hi
    exact hall i (Finset.mem_range_succ_iff.mp hi)

theorem hybrid_succ :
    hybrid now (k + 1) = max (hybrid now k + 1) (4096 * (now (k + 1)).toNat) := by
  have hterms := (hybrid_le_iff now k).mp (Nat.le_refl _)
  have hnext := (hybrid_le_iff now (k + 1)).mp (Nat.le_refl _)
  apply Nat.le_antisymm
  · apply (hybrid_le_iff now (k + 1)).mpr
    intro i hi
    rcases Nat.lt_or_eq_of_le hi with hlt | rfl
    · have hterm := hterms i (Nat.le_of_lt_succ hlt)
      omega
    · omega
  · have hlast := hnext (k + 1) (Nat.le_refl _)
    have hfirst := hnext 0 (Nat.zero_le _)
    have hbefore : hybrid now k ≤ hybrid now (k + 1) - 1 := by
      apply (hybrid_le_iff now k).mpr
      intro i hi
      have hterm := hnext i (Nat.le_succ_of_le hi)
      omega
    omega

/-- Readings that leave room for all mints keep the hybrid clock in range. -/
theorem hybrid_lt {count : Nat} (hk : k < count)
    (hroom : ∀ i < count, (now i).toNat + count < 2 ^ 64) : hybrid now k + 1 < 2 ^ 76 := by
  have hle : hybrid now k ≤ 2 ^ 76 - 2 := by
    apply (hybrid_le_iff now k).mpr
    intro i hi
    have hreading := hroom i (Nat.lt_of_le_of_lt hi hk)
    omega
  omega

/-- The least position that is free when mint `k` begins. -/
def hybridFloor : Nat → Nat
  | 0 => 0
  | k + 1 => hybrid now k + 1

theorem hybrid_eq_max : hybrid now k = max (hybridFloor now k) (4096 * (now k).toNat) := by
  cases k with
  | zero => rw [hybrid_zero, hybridFloor, Nat.zero_max]
  | succ k => rw [hybrid_succ, hybridFloor]

end Hybrid

/-- From mint `start` on, commits follow the hybrid clock. -/
theorem Generator.mintAll_eq_hybrid {now word : Nat → UInt64} {generator : Generator}
    {start count : Nat} (hsound : generator.Sound) (hfloor : generator.floor = hybridFloor now start)
    (hrange : ∀ k < start + count, hybrid now k + 1 < 2 ^ 76) :
    (generator.mintAll ((List.range' start count).map fun k => (now k, word k))).map
        Minted.token =
      (List.range' start count).map fun k =>
        Token.pack (hybrid now k / 4096).toUInt64 (hybrid now k % 4096).toUInt64 (word k) := by
  induction count generalizing generator start with
  | zero => rfl
  | succ count ih =>
      have hroom : generator.floor < 2 ^ 76 := by
        have hstart := hrange start (Nat.lt_add_of_pos_right (Nat.succ_pos count))
        rw [hybrid_eq_max] at hstart
        omega
      have hposition := position_commit hsound hroom (now start) (word start)
      rw [hfloor, ← hybrid_eq_max] at hposition
      have hnext : (generator.commit (now start) (word start)).2.floor = hybridFloor now (start + 1) := by
        rw [commit_floor, hposition, hybridFloor]
      have htoken := token_commit generator (now start) (word start)
      rw [hposition] at htoken
      rw [List.range'_succ, List.map_cons, List.map_cons, mintAll, List.map_cons, htoken,
        ih (commit_sound (now start) (word start)) hnext]
      intro k hk
      exact hrange k (by omega)

namespace Mint

/-- The tokens of `count` mints from a fresh generator are those of the hybrid
clock, however many calls fail in between. -/
theorem tokens_eq_hybrid {mint : Mint} (hfresh : mint.generator = Generator.fresh)
    {occasions : List Occasion} {count : Nat} {bytes : Nat → Bytes} {now : Nat → UInt64}
    (hmints : mint.Mints occasions ((List.range count).map fun k => (bytes k, now k)))
    (hroom : ∀ k < count, (now k).toNat + count < 2 ^ 64) :
    (mint.tokens occasions =
      (List.range count).map fun k =>
        Token.pack (hybrid now k / 4096).toUInt64 (hybrid now k % 4096).toUInt64
          (BigEndian.value (bytes k)).toUInt64) ∧
      (∀ k < count, hybrid now k / 4096 < 2 ^ 64 ∧ BigEndian.value (bytes k) < 2 ^ 64) ∧
      hybrid now 0 = 4096 * (now 0).toNat ∧
      ∀ k, hybrid now (k + 1) = max (hybrid now k + 1) (4096 * (now (k + 1)).toNat) := by
  have hrange : ∀ k < count, hybrid now k + 1 < 2 ^ 76 := by
    intro k hk
    exact hybrid_lt now k hk hroom
  have hlength : ∀ k < count, (bytes k).length = 8 := by
    intro k hk
    exact hmints.length_bytes (bytes k, now k) (List.mem_map_of_mem (List.mem_range.mpr hk))
  refine ⟨?_, ?_, hybrid_zero now, hybrid_succ now⟩
  · have hwords : ∀ k ∈ List.range count,
        BigEndian.decode64 (bytes k) = (BigEndian.value (bytes k)).toUInt64 := by
      intro k hk
      rw [← BigEndian.toNat_decode64 (hlength k (List.mem_range.mp hk))]
      exact UInt64.ofNat_toNat.symm
    have hsound : mint.generator.Sound := by
      rw [hfresh]
      exact Generator.fresh_sound
    have hfloor : mint.generator.floor = hybridFloor now 0 := by
      rw [hfresh]
      rfl
    have htokens := @Generator.mintAll_eq_hybrid now (fun k => BigEndian.decode64 (bytes k))
      mint.generator 0 count hsound hfloor (by
        intro k hk
        exact hrange k (by omega))
    rw [← List.range_eq_range'] at htokens
    rw [hmints.tokens_eq, List.map_map]
    refine htokens.trans (List.map_congr_left ?_)
    intro k hk
    rw [hwords k hk]
  · intro k hk
    have hvalue := BigEndian.value_lt (bytes k)
    rw [hlength k hk] at hvalue
    constructor
    · have hlt := hrange k hk
      omega
    · exact hvalue

theorem jitter_follows_hybrid :
    ∃ (bytes : Nat → Bytes) (now : Nat → UInt64),
      (scripted.Mints jitter ((List.range 3).map fun k => (bytes k, now k)) ∧
        ∀ k < 3, (now k).toNat + 3 < 2 ^ 64) ∧
      scripted.tokens jitter =
        (List.range 3).map fun k =>
          Token.pack (hybrid now k / 4096).toUInt64 (hybrid now k % 4096).toUInt64
            (BigEndian.value (bytes k)).toUInt64 := by
  let bytes : Nat → Bytes := fun k => BigEndian.encode64 ([7, 5, 0].getD k 0)
  let now : Nat → UInt64 := fun k => [1000, 900, 2000].getD k 0
  have hmints : scripted.Mints jitter ((List.range 3).map fun k => (bytes k, now k)) :=
    jitter_mints
  have hroom : ∀ k < 3, (now k).toNat + 3 < 2 ^ 64 := by decide
  exact ⟨bytes, now, ⟨hmints, hroom⟩, (tokens_eq_hybrid rfl hmints hroom).1⟩

end Mint

end TokenMint
