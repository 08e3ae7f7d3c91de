import Mathlib.Data.List.Induction
import TokenMint.Proofs.Layout
import TokenMint.Proofs.Position

/-!
# Commits in a row

A generator commits once for each time and word it is given.  Where it stands
depends on the times alone, its positions grow, and it counts what it mints.  Under a
clock that stands still, every 4096 commits force a tick, even if the timestamp runs
over.
-/

namespace TokenMint

/-- The place of a minted pair among all pairs. -/
def Minted.position (minted : Minted) : Nat :=
  4096 * minted.timestamp.toNat + minted.counter.toNat

namespace Generator

section Commit

variable (generator : Generator) (now word : UInt64)

/-- The move to the next pair has nothing to do with readings and mints. -/
theorem advance_keeps :
    (generator.advance now).2.lastWall = generator.lastWall ∧
      (generator.advance now).2.stats.minted = generator.stats.minted ∧
      (generator.advance now).2.stats.regressions = generator.stats.regressions := by
  unfold advance
  split
  · exact ⟨rfl, rfl, rfl⟩
  · split
    · exact ⟨rfl, rfl, rfl⟩
    · exact ⟨rfl, rfl, rfl⟩

theorem commit_lastWall : (generator.commit now word).2.lastWall = now :=
  (advance_keeps (generator.observe now) now).1

theorem commit_stats_minted :
    (generator.commit now word).2.stats.minted = generator.stats.minted + 1 :=
  congrArg (· + 1) (advance_keeps (generator.observe now) now).2.1

theorem commit_stats_regressions :
    (generator.commit now word).2.stats.regressions =
      generator.stats.regressions +
        if generator.started && now < generator.lastWall then 1 else 0 :=
  (advance_keeps (generator.observe now) now).2.2

/-- A tick is counted where the timestamp is forced ahead. -/
theorem advance_forcedTicks :
    (generator.advance now).2.stats.forcedTicks =
      generator.stats.forcedTicks + if (generator.advance now).1 then 1 else 0 := by
  unfold advance
  split
  · exact (UInt64.add_zero _).symm
  · split
    · rfl
    · exact (UInt64.add_zero _).symm

theorem commit_stats_forcedTicks :
    (generator.commit now word).2.stats.forcedTicks =
      generator.stats.forcedTicks + if (generator.commit now word).1.forced then 1 else 0 :=
  advance_forcedTicks (generator.observe now) now

/-- The count of forced ticks in numbers; it runs over at 2^64. -/
theorem toNat_commit_forcedTicks :
    (generator.commit now word).2.stats.forcedTicks.toNat =
      (generator.stats.forcedTicks.toNat +
        if (generator.commit now word).1.forced then 1 else 0) % 2 ^ 64 := by
  rw [commit_stats_forcedTicks, UInt64.toNat_add]
  split
  · rfl
  · rfl

theorem commit_stats_lastMs :
    (generator.commit now word).2.stats.lastMs = (generator.commit now word).2.lastMs :=
  rfl

theorem commit_stats_driftMs :
    (generator.commit now word).2.stats.driftMs =
      ((generator.commit now word).2.lastMs - now).toInt64 :=
  rfl

/-- A token holds the position that its commit has taken. -/
theorem token_commit :
    (generator.commit now word).1.token =
      Token.pack ((generator.commit now word).2.position / 4096).toUInt64
        ((generator.commit now word).2.position % 4096).toUInt64 word := by
  have hsound := @commit_sound generator now word
  rw [hsound.lastMs_eq, hsound.counter_eq]
  rfl

end Commit

/-- What a generator mints at these times from these words. -/
def mintAll (generator : Generator) : List (UInt64 × UInt64) → List Minted
  | [] => []
  | (now, word) :: rest =>
      (generator.commit now word).1 :: (generator.commit now word).2.mintAll rest

/-- The generator after that. -/
def afterAll (generator : Generator) (met : List (UInt64 × UInt64)) : Generator :=
  met.foldl (fun generator met => (generator.commit met.1 met.2).2) generator

theorem afterAll_concat (generator : Generator) (met : List (UInt64 × UInt64))
    (now word : UInt64) :
    generator.afterAll (met ++ [(now, word)]) = ((generator.afterAll met).commit now word).2 := by
  rw [afterAll, List.foldl_append]
  rfl

theorem mintAll_concat (generator : Generator) (met : List (UInt64 × UInt64))
    (now word : UInt64) :
    generator.mintAll (met ++ [(now, word)]) =
      generator.mintAll met ++ [((generator.afterAll met).commit now word).1] := by
  induction met generalizing generator with
  | nil => rfl
  | cons head rest ih =>
      rw [List.cons_append, mintAll, ih, mintAll, List.cons_append]
      rfl

/-- Each token is minted by the generator that has met what came before. -/
theorem getElem?_mintAll (generator : Generator) (met : List (UInt64 × UInt64)) (n : Nat) :
    (generator.mintAll met)[n]? =
      met[n]?.map fun drawn => ((generator.afterAll (met.take n)).commit drawn.1 drawn.2).1 := by
  induction met generalizing generator n with
  | nil => rfl
  | cons head rest ih =>
      cases n with
      | zero => rfl
      | succ n => exact ih (generator.commit head.1 head.2).2 n

theorem afterAll_sound {generator : Generator} (hsound : generator.Sound)
    (met : List (UInt64 × UInt64)) : (generator.afterAll met).Sound := by
  induction met generalizing generator with
  | nil => exact hsound
  | cons head rest ih => exact ih (commit_sound head.1 head.2)

section Times

variable {met others : List (UInt64 × UInt64)}

/-- Where a generator stands depends on the times, and not on the words. -/
theorem afterAll_of_times (generator : Generator)
    (htimes : met.map Prod.fst = others.map Prod.fst) :
    generator.afterAll met = generator.afterAll others := by
  have hfold : ∀ list : List (UInt64 × UInt64), generator.afterAll list =
      (list.map Prod.fst).foldl (fun generator now => (generator.commit now 0).2) generator := by
    intro list
    rw [List.foldl_map]
    rfl
  rw [hfold met, hfold others, htimes]

theorem mintAll_of_times (generator : Generator)
    (htimes : met.map Prod.fst = others.map Prod.fst) :
    (generator.mintAll met).map (fun minted => (minted.timestamp, minted.counter)) =
      (generator.mintAll others).map (fun minted => (minted.timestamp, minted.counter)) := by
  induction met generalizing generator others with
  | nil =>
      cases others with
      | nil => rfl
      | cons other others => contradiction
  | cons head rest ih =>
      cases others with
      | nil => contradiction
      | cons other others =>
          rw [List.map_cons, List.map_cons, List.cons.injEq] at htimes
          have hafter : (generator.commit head.1 head.2).2 =
              (generator.commit other.1 other.2).2 := by
            rw [htimes.1, Generator.commit_word]
          rw [mintAll, mintAll, List.map_cons, List.map_cons, ih _ htimes.2, hafter]
          congr 1
          exact Prod.ext (congrArg Generator.lastMs hafter) (congrArg Generator.counter hafter)

end Times

section Order

variable {generator : Generator} {met : List (UInt64 × UInt64)}

/-- Every commit takes a position that was free before the first one. -/
theorem floor_le_of_mem (hsound : generator.Sound) (hlast : generator.lastMs.toNat < 2 ^ 48)
    (htimes : ∀ minted ∈ generator.mintAll met, minted.timestamp.toNat < 2 ^ 48) :
    ∀ minted ∈ generator.mintAll met,
      generator.floor ≤ minted.position ∧ minted.counter.toNat < 4096 := by
  induction met generalizing generator with
  | nil => simp [mintAll]
  | cons head rest ih =>
      rw [mintAll, List.forall_mem_cons] at htimes ⊢
      have hadvances := commit_advances_of_lt hsound hlast head.1 head.2
      refine ⟨⟨hadvances.takes, hadvances.sound.counter_lt⟩, ?_⟩
      intro minted hminted
      obtain ⟨hfloor, hcounter⟩ := ih hadvances.sound htimes.1 htimes.2 minted hminted
      rw [hadvances.leaves] at hfloor
      exact ⟨Nat.le_trans hadvances.takes (Nat.le_of_succ_le hfloor), hcounter⟩

/-- Later commits take later positions. -/
theorem mintAll_increase (hsound : generator.Sound) (hlast : generator.lastMs.toNat < 2 ^ 48)
    (htimes : ∀ minted ∈ generator.mintAll met, minted.timestamp.toNat < 2 ^ 48) :
    (generator.mintAll met).Pairwise fun first later => first.position < later.position := by
  induction met generalizing generator with
  | nil => exact List.Pairwise.nil
  | cons head rest ih =>
      rw [mintAll, List.forall_mem_cons] at htimes
      have hadvances := commit_advances_of_lt hsound hlast head.1 head.2
      rw [mintAll, List.pairwise_cons]
      constructor
      · intro later hlater
        have hfloor := (floor_le_of_mem hadvances.sound htimes.1 htimes.2 later hlater).1
        rw [hadvances.leaves] at hfloor
        exact Nat.lt_of_succ_le hfloor
      · exact ih hadvances.sound htimes.1 htimes.2

/-- Each commit uses up a position. -/
theorem length_le_floor (hsound : generator.Sound) (hlast : generator.lastMs.toNat < 2 ^ 48)
    (htimes : ∀ minted ∈ generator.mintAll met, minted.timestamp.toNat < 2 ^ 48) :
    generator.floor + met.length ≤ (generator.afterAll met).floor := by
  induction met generalizing generator with
  | nil => exact Nat.le_refl _
  | cons head rest ih =>
      rw [mintAll, List.forall_mem_cons] at htimes
      have hadvances := commit_advances_of_lt hsound hlast head.1 head.2
      have hrest := ih hadvances.sound htimes.1 htimes.2
      have htakes := hadvances.takes
      rw [hadvances.leaves] at hrest
      rw [List.length_cons]
      exact Nat.le_trans (by omega) hrest

end Order

section Counts

variable {generator : Generator} {met : List (UInt64 × UInt64)}

theorem afterAll_minted (generator : Generator) (met : List (UInt64 × UInt64)) :
    (generator.afterAll met).stats.minted.toNat =
      (generator.stats.minted.toNat + met.length) % 2 ^ 64 := by
  induction met generalizing generator with
  | nil => exact (Nat.mod_eq_of_lt generator.stats.minted.toNat_lt).symm
  | cons head rest ih =>
      have hstep := ih (generator.commit head.1 head.2).2
      rw [commit_stats_minted, UInt64.toNat_add] at hstep
      rw [List.length_cons]
      change ((generator.commit head.1 head.2).2.afterAll rest).stats.minted.toNat = _
      rw [hstep]
      change ((generator.stats.minted.toNat + 1) % 2 ^ 64 + rest.length) % 2 ^ 64 = _
      omega

/-- Readings that never go back leave the count of regressions alone. -/
theorem afterAll_regressions
    (hwall : generator.started = true → ∀ now ∈ met.map Prod.fst, generator.lastWall ≤ now)
    (hordered : (met.map Prod.fst).Pairwise (· ≤ ·)) :
    (generator.afterAll met).stats.regressions = generator.stats.regressions := by
  induction met generalizing generator with
  | nil => rfl
  | cons head rest ih =>
      rw [List.map_cons, List.pairwise_cons] at hordered
      have hkept : ¬ (generator.started && head.1 < generator.lastWall) = true := by
        intro hback
        rw [Bool.and_eq_true, decide_eq_true_iff] at hback
        have hle := hwall hback.1 head.1 List.mem_cons_self
        exact absurd hback.2 (UInt64.not_lt.mpr hle)
      have hrest := @ih (generator.commit head.1 head.2).2 (by
        intro _ now hnow
        rw [commit_lastWall]
        exact hordered.1 now hnow) hordered.2
      rw [commit_stats_regressions, if_neg hkept, UInt64.add_zero] at hrest
      exact hrest

end Counts

/-- How many counters of its timestamp a generator has used up. -/
def used (generator : Generator) : Nat :=
  if generator.started then generator.counter.toNat + 1 else 0

theorem Sound.used_le {generator : Generator} (hsound : generator.Sound) :
    generator.used ≤ 4096 := by
  have hcounter := hsound.counter_lt
  rw [used]
  split
  · exact hcounter
  · exact Nat.zero_le _

section Frozen

variable {now : UInt64} {met : List (UInt64 × UInt64)}

/-- A commit at a time that is not ahead uses up one counter.  A tick is forced when 4096
of them are used up, and the count starts again behind it. -/
theorem used_commit {generator : Generator} (hsound : generator.Sound)
    (hbehind : generator.started = true → now ≤ generator.lastMs) (word : UInt64) :
    4096 * (if (generator.commit now word).1.forced then 1 else 0) +
      (generator.commit now word).2.used = generator.used + 1 := by
  have hcounter := hsound.counter_lt
  obtain ⟨hafter, ⟨hahead, -, hzero, hcalm⟩ | ⟨⟨hstarted, -⟩, -, -, hnext, hcalm⟩ |
      ⟨⟨hstarted, -⟩, hfull, -, hzero, htick⟩⟩ := commit_cases generator now word
  · have hfirst : generator.started = false := by
      rcases hahead with hfirst | hlt
      · exact hfirst
      · exact Bool.eq_false_iff.mpr fun hstarted =>
          UInt64.not_lt.mpr (hbehind hstarted) hlt
    rw [used, if_pos hafter, hzero, hcalm, used, hfirst]
    rfl
  · rw [used, if_pos hafter, hnext, hcalm, used, if_pos hstarted, UInt64.toNat_add,
      UInt64.toNat_one, if_neg Bool.false_ne_true]
    omega
  · have hused := UInt64.lt_iff_toNat_lt.mp hfull
    rw [UInt64.toNat_add, UInt64.toNat_one] at hused
    change 4095 < (generator.counter.toNat + 1) % 2 ^ 64 at hused
    rw [used, if_pos hafter, hzero, htick, if_pos rfl, used, if_pos hstarted, UInt64.toNat_zero]
    omega

/-- Under a frozen clock, each mint takes the position after the last one. -/
theorem floor_afterAll_frozen (htimes : ∀ drawn ∈ met, drawn.1 = now)
    (hroom : 4096 * now.toNat + met.length ≤ 2 ^ 76) :
    max (fresh.afterAll met).floor (4096 * now.toNat) = 4096 * now.toNat + met.length := by
  -- A fresh generator has the floor zero, so the invariant speaks of the maximum.
  induction met using List.reverseRecOn with
  | nil => exact Nat.zero_max _
  | append_singleton met last ih =>
      rw [List.forall_mem_append, List.forall_mem_singleton] at htimes
      rw [List.length_append, List.length_singleton] at hroom ⊢
      have hbefore := ih htimes.1 (by omega)
      have hposition := position_commit (afterAll_sound fresh_sound met) (by omega) last.1 last.2
      rw [htimes.2, hbefore] at hposition
      rw [afterAll_concat, commit_floor, htimes.2, hposition]
      omega

/-- The token after so many mints under a frozen clock. -/
theorem getElem?_mintAll_frozen (htimes : ∀ drawn ∈ met, drawn.1 = now) {n : Nat}
    (hn : n < met.length) (hroom : 4096 * now.toNat + n < 2 ^ 76) :
    ∃ word, ((fresh.mintAll met)[n]?).map Minted.token =
      some (Token.pack (now.toNat + n / 4096).toUInt64 (n % 4096).toUInt64 word) := by
  have hlength : (met.take n).length = n := by
    rw [List.length_take, Nat.min_eq_left (Nat.le_of_lt hn)]
  have hbefore : ∀ drawn ∈ met.take n, drawn.1 = now := by
    intro drawn hdrawn
    exact htimes drawn (List.mem_of_mem_take hdrawn)
  have hfloor := floor_afterAll_frozen hbefore (by rw [hlength]; omega)
  rw [hlength] at hfloor
  have hposition := position_commit (afterAll_sound fresh_sound (met.take n)) (by omega)
    met[n].1 met[n].2
  rw [htimes _ (List.getElem_mem hn), hfloor] at hposition
  have hdiv : (4096 * now.toNat + n) / 4096 = now.toNat + n / 4096 := by omega
  have hmod : (4096 * now.toNat + n) % 4096 = n % 4096 := by omega
  have htoken := token_commit (fresh.afterAll (met.take n)) now met[n].2
  rw [hposition, hdiv, hmod] at htoken
  refine ⟨met[n].2, ?_⟩
  rw [getElem?_mintAll, List.getElem?_eq_getElem hn, Option.map_some, Option.map_some,
    htimes _ (List.getElem_mem hn), htoken]

/-- Under a frozen clock, the mint behind the last position overruns. -/
theorem overruns_commit_frozen (htimes : ∀ drawn ∈ met, drawn.1 = now)
    (hfull : 4096 * now.toNat + met.length = 2 ^ 76) (word : UInt64) :
    Overruns (fresh.afterAll met) ((fresh.afterAll met).commit now word).2 := by
  have hfloor := floor_afterAll_frozen htimes (Nat.le_of_eq hfull)
  have hnow := now.toNat_lt
  exact overruns_commit_of_le_floor (afterAll_sound fresh_sound met) (by omega) now word

end Frozen

end Generator

end TokenMint
