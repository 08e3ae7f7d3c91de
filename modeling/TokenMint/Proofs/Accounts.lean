import Mathlib.Data.Finset.Lattice.Fold
import Mathlib.Order.Lattice.Nat
import TokenMint.Proofs.Expiry
import TokenMint.Proofs.Runs

/-!
# Statistics of a run

The statistics of a generator are exact accounts of what it has met: how many
tokens it has minted, how often its clock has gone back, and how far its
timestamp is ahead of the clock.  The lead comes from the highest reading and
from ticks that were forced, and a forced tick takes 4096 tokens.
-/

namespace TokenMint

section Readings

variable (now : Nat → UInt64) (count : Nat)

/-- How many of the first `count` readings are below the reading before. -/
def setbacks : Nat :=
  ((Finset.range count).filter fun k => 1 ≤ k ∧ now k < now (k - 1)).card

/-- The highest of the first `count` readings. -/
def peak : Nat :=
  (Finset.range count).sup fun k => (now k).toNat

theorem setbacks_succ :
    setbacks now (count + 1) =
      setbacks now count + if 1 ≤ count ∧ now count < now (count - 1) then 1 else 0 := by
  rw [setbacks, setbacks, Finset.range_add_one, Finset.filter_insert]
  split
  · rw [Finset.card_insert_of_notMem (by simp)]
  · rfl

theorem setbacks_le : setbacks now count ≤ count :=
  (Finset.card_filter_le _ _).trans_eq (Finset.card_range count)

theorem peak_succ : peak now (count + 1) = max (now count).toNat (peak now count) := by
  rw [peak, peak, Finset.range_add_one, Finset.sup_insert]

theorem peak_le_iff {bound : Nat} :
    peak now count ≤ bound ↔ ∀ k < count, (now k).toNat ≤ bound := by
  simp [peak]

end Readings

namespace Generator

/-- The accounts of a generator whose last commit has read `now last`, and whose
first one has read `now 0`. -/
structure Accounts (now : Nat → UInt64) (last : Nat) (generator : Generator) : Prop where
  started : generator.started = true
  sound : generator.Sound
  lastWall : generator.lastWall = now last
  minted : generator.stats.minted.toNat = last + 1
  regressions : generator.stats.regressions.toNat = setbacks now (last + 1)
  stamped : generator.stats.lastMs = generator.lastMs
  drift : generator.stats.driftMs = (generator.lastMs - now last).toInt64
  covers : peak now (last + 1) ≤ generator.lastMs.toNat
  lead : generator.lastMs.toNat ≤ peak now (last + 1) + generator.stats.forcedTicks.toNat
  ticks : 4096 * generator.stats.forcedTicks.toNat + generator.counter.toNat ≤ last

variable {now : Nat → UInt64} {last : Nat} {generator : Generator}

theorem fresh_accounts (now : Nat → UInt64) (word : UInt64) :
    Accounts now 0 (fresh.commit (now 0) word).2 := by
  have hpeak : peak now 1 = (now 0).toNat := by simp [peak]
  have hsetbacks : setbacks now 1 = 0 := by simp [setbacks]
  exact {
    started := rfl
    sound := commit_sound (now 0) word
    lastWall := rfl
    minted := rfl
    regressions := hsetbacks.symm
    stamped := rfl
    drift := rfl
    covers := Nat.le_of_eq hpeak
    lead := Nat.le_of_eq hpeak.symm
    ticks := Nat.le_refl 0 }

/-- The timestamp stays far away from its greatest value. -/
theorem Accounts.lastMs_lt (haccounts : Accounts now last generator)
    (hroom : ∀ k < last + 1, (now k).toNat + (last + 1) < 2 ^ 63) :
    generator.lastMs.toNat + 1 < 2 ^ 63 := by
  have hpeak : peak now (last + 1) ≤ 2 ^ 63 - 1 - (last + 1) := by
    rw [peak_le_iff]
    intro k hk
    have hreading := hroom k hk
    omega
  have hfirst := hroom 0 (Nat.succ_pos last)
  have hlead := haccounts.lead
  have hticks := haccounts.ticks
  omega

section Commit

variable (haccounts : Accounts now last generator)
  (hroom : ∀ k < last + 1, (now k).toNat + (last + 1) < 2 ^ 63) (word : UInt64)

include haccounts hroom

theorem Accounts.minted_commit :
    (generator.commit (now (last + 1)) word).2.stats.minted.toNat = last + 1 + 1 := by
  have hfirst := hroom 0 (Nat.succ_pos last)
  rw [commit_stats_minted, UInt64.toNat_add, haccounts.minted, UInt64.toNat_one]
  exact Nat.mod_eq_of_lt (by omega)

theorem Accounts.regressions_commit :
    (generator.commit (now (last + 1)) word).2.stats.regressions.toNat =
      setbacks now (last + 1 + 1) := by
  have hfirst := hroom 0 (Nat.succ_pos last)
  have hcount := setbacks_le now (last + 1)
  rw [commit_stats_regressions, haccounts.started, haccounts.lastWall, setbacks_succ,
    UInt64.toNat_add, haccounts.regressions]
  by_cases hback : now (last + 1) < now last
  · simp [hback]
    omega
  · simp [hback]
    omega

/-- The three ways to commit keep the timestamp between the highest reading and
what forced ticks have added to it, and each forced tick uses up a counter. -/
theorem Accounts.lead_commit :
    let after := (generator.commit (now (last + 1)) word).2
    peak now (last + 1 + 1) ≤ after.lastMs.toNat ∧
      after.lastMs.toNat ≤ peak now (last + 1 + 1) + after.stats.forcedTicks.toNat ∧
      4096 * after.stats.forcedTicks.toNat + after.counter.toNat ≤ last + 1 := by
  intro after
  have hlast := haccounts.lastMs_lt hroom
  have hfirst := hroom 0 (Nat.succ_pos last)
  have hcounter := haccounts.sound.counter_lt
  have hcovers := haccounts.covers
  have hlead := haccounts.lead
  have hticks := haccounts.ticks
  have hforced := commit_stats_forcedTicks generator (now (last + 1)) word
  rw [peak_succ]
  obtain ⟨-, ⟨hahead, hstamp, hzero, hcalm⟩ | ⟨⟨-, hbehind⟩, -, hstamp, hnext, hcalm⟩ |
      ⟨⟨-, hbehind⟩, hfull, hstamp, hzero, htick⟩⟩ := commit_cases generator (now (last + 1)) word
  · have hafter : generator.lastMs.toNat < (now (last + 1)).toNat :=
      UInt64.lt_iff_toNat_lt.mp (hahead.resolve_left (by simp [haccounts.started]))
    have hsame : after.stats.forcedTicks = generator.stats.forcedTicks := by
      simpa [hcalm] using hforced
    simp only [after, hstamp, hzero, hsame, UInt64.toNat_zero]
    omega
  · have hbefore : (now (last + 1)).toNat ≤ generator.lastMs.toNat :=
      UInt64.le_iff_toNat_le.mp hbehind
    have hsame : after.stats.forcedTicks = generator.stats.forcedTicks := by
      simpa [hcalm] using hforced
    simp only [after, hstamp, hnext, hsame, UInt64.toNat_add, UInt64.toNat_one]
    omega
  · have hbefore : (now (last + 1)).toNat ≤ generator.lastMs.toNat :=
      UInt64.le_iff_toNat_le.mp hbehind
    have hlater : after.stats.forcedTicks = generator.stats.forcedTicks + 1 := by
      simpa [htick] using hforced
    have hused : 4095 < (generator.counter + 1).toNat := UInt64.lt_iff_toNat_lt.mp hfull
    simp only [after, hstamp, hzero, hlater, UInt64.toNat_add, UInt64.toNat_one,
      UInt64.toNat_zero] at hused ⊢
    omega

end Commit

theorem Accounts.commit (haccounts : Accounts now last generator)
    (hroom : ∀ k < last + 1, (now k).toNat + (last + 1) < 2 ^ 63) (word : UInt64) :
    Accounts now (last + 1) (generator.commit (now (last + 1)) word).2 := by
  obtain ⟨hcovers, hlead, hticks⟩ := haccounts.lead_commit hroom word
  exact {
    started := commit_started generator (now (last + 1)) word
    sound := commit_sound (now (last + 1)) word
    lastWall := commit_lastWall generator (now (last + 1)) word
    minted := haccounts.minted_commit hroom word
    regressions := haccounts.regressions_commit hroom word
    stamped := commit_stats_lastMs generator (now (last + 1)) word
    drift := commit_stats_driftMs generator (now (last + 1)) word
    covers := hcovers
    lead := hlead
    ticks := hticks }

/-- The accounts after any number of commits. -/
theorem fresh_afterAll_accounts (word : Nat → UInt64)
    (hroom : ∀ k < last + 1, (now k).toNat + (last + 1) < 2 ^ 63) :
    Accounts now last
      (fresh.afterAll ((List.range (last + 1)).map fun k => (now k, word k))) := by
  induction last with
  | zero => exact fresh_accounts now (word 0)
  | succ last ih =>
      have hbefore : ∀ k < last + 1, (now k).toNat + (last + 1) < 2 ^ 63 := by
        intro k hk
        have hreading := hroom k (Nat.lt_succ_of_lt hk)
        omega
      rw [List.range_succ, List.map_append, List.map_singleton, afterAll_concat]
      exact (ih hbefore).commit hbefore (word (last + 1))

/-- A lead that is not negative and fits 63 bits is what its 64 bits say. -/
theorem toInt_lead {lastMs now : UInt64} (hle : now ≤ lastMs) (hlast : lastMs.toNat < 2 ^ 63) :
    (lastMs - now).toInt64.toInt = (lastMs.toNat : Int) - now.toNat := by
  have hnow := UInt64.le_iff_toNat_le.mp hle
  have hlead := UInt64.toNat_sub_of_le _ _ hle
  rw [Token.toInt_toInt64_of_lt (by omega), hlead]
  omega

/-- The timestamp is no earlier than any reading. -/
theorem Accounts.reading_le (haccounts : Accounts now last generator) {k : Nat}
    (hk : k < last + 1) : now k ≤ generator.lastMs :=
  UInt64.le_iff_toNat_le.mpr ((peak_le_iff now (last + 1)).mp haccounts.covers k hk)

theorem Accounts.toInt_driftMs (haccounts : Accounts now last generator)
    (hroom : ∀ k < last + 1, (now k).toNat + (last + 1) < 2 ^ 63) :
    generator.stats.driftMs.toInt = (generator.lastMs.toNat : Int) - (now last).toNat := by
  have hlast := haccounts.lastMs_lt hroom
  rw [haccounts.drift]
  exact toInt_lead (haccounts.reading_le (Nat.lt_succ_self last)) (by omega)

end Generator

namespace Mint

/-- The last token of a run holds the timestamp and the counter at which its
generator stands. -/
theorem Mints.getLast?_tokens {mint : Mint} {occasions : List Occasion}
    {met : List (Bytes × UInt64)} {bytes : Bytes} {now : UInt64}
    (hmints : mint.Mints occasions (met ++ [(bytes, now)])) :
    (mint.tokens occasions).getLast? =
      some (Token.pack (mint.afterAll occasions).generator.lastMs
        (mint.afterAll occasions).generator.counter (BigEndian.decode64 bytes)) := by
  have htokens := hmints.tokens_eq
  have hafter := hmints.afterAll_eq
  rw [List.map_append, List.map_singleton] at htokens hafter
  rw [Generator.mintAll_concat, List.map_append, List.map_singleton] at htokens
  rw [Generator.afterAll_concat] at hafter
  rw [htokens, hafter, List.getLast?_concat]
  rfl

/-- The statistics account for every run from a fresh generator with at least one
token, whatever calls fail in between, as long as the readings leave room for the
run below 2^63. -/
theorem stats_account_for_run {mint : Mint} (hfresh : mint.generator = Generator.fresh)
    {occasions : List Occasion} {count : Nat} {bytes : Nat → Bytes} {now : Nat → UInt64}
    (hcommits : mint.Commits occasions ((List.range count).map fun k => (bytes k, now k)))
    (hsome : 1 ≤ count) (hroom : ∀ k < count, (now k).toNat + count < 2 ^ 63) :
    let after := mint.afterAll occasions
    let latest := (now (count - 1)).toNat
    after.generator.counter ≤ 4095 ∧
      after.stats.minted.toNat = count ∧
      after.stats.regressions.toNat = setbacks now count ∧
      after.stats.lastMs = after.generator.lastMs ∧
      (mint.Mints occasions ((List.range count).map fun k => (bytes k, now k)) →
        ∃ word, (mint.tokens occasions).getLast? =
          some (Token.pack after.stats.lastMs after.generator.counter word)) ∧
      (∀ k < count, now k ≤ after.stats.lastMs) ∧
      after.stats.driftMs.toInt = (after.stats.lastMs.toNat : Int) - latest ∧
      0 ≤ after.stats.driftMs.toInt ∧
      after.stats.driftMs.toInt ≤
        ((peak now count : Int) - latest) + after.stats.forcedTicks.toNat ∧
      4096 * after.stats.forcedTicks.toNat ≤ count - 1 := by
  intro after latest
  obtain ⟨last, rfl⟩ := Nat.exists_eq_add_of_le' hsome
  have haccounts : Generator.Accounts now last after.generator := by
    have hafter := hcommits.afterAll_eq
    rw [hfresh, List.map_map] at hafter
    rw [hafter]
    exact Generator.fresh_afterAll_accounts (fun k => BigEndian.decode64 (bytes k)) hroom
  have hlead := haccounts.lead
  have hticks := haccounts.ticks
  have hlatest := UInt64.le_iff_toNat_le.mp (haccounts.reading_le (Nat.lt_succ_self last))
  have hnow : latest = (now last).toNat := rfl
  have hstamped : after.stats.lastMs = after.generator.lastMs := haccounts.stamped
  have hdrift : after.stats.driftMs.toInt =
      (after.generator.lastMs.toNat : Int) - (now last).toNat := haccounts.toInt_driftMs hroom
  have hforced : after.stats.forcedTicks = after.generator.stats.forcedTicks := rfl
  rw [hstamped, hdrift, hforced, hnow]
  refine ⟨haccounts.sound, haccounts.minted, haccounts.regressions, rfl, ?_,
    fun k hk => haccounts.reading_le hk, rfl, ?_, ?_, ?_⟩
  · intro hmints
    rw [List.range_succ, List.map_append, List.map_singleton] at hmints
    exact ⟨BigEndian.decode64 (bytes last), hmints.getLast?_tokens⟩
  · omega
  · omega
  · omega

/-- After the clock has gone back by 100 ms, and with two calls that fail, there are
two tokens, one regression and a drift of 100 ms. -/
theorem setback_accounted :
    ∃ (bytes : Nat → Bytes) (now : Nat → UInt64),
      (scripted.Commits (jitter.take 4) ((List.range 2).map fun k => (bytes k, now k)) ∧
        ∀ k < 2, (now k).toNat + 2 < 2 ^ 63) ∧
      (scripted.afterAll (jitter.take 4)).stats.minted.toNat = 2 ∧
      (scripted.afterAll (jitter.take 4)).stats.regressions.toNat = 1 ∧
      (scripted.afterAll (jitter.take 4)).stats.driftMs.toInt = 1000 - 900 ∧
      4096 * (scripted.afterAll (jitter.take 4)).stats.forcedTicks.toNat ≤ 2 - 1 := by
  let bytes : Nat → Bytes := fun k => BigEndian.encode64 ([7, 5].getD k 0)
  let now : Nat → UInt64 := fun k => [1000, 900].getD k 0
  have hcommits : scripted.Commits (jitter.take 4) ((List.range 2).map fun k => (bytes k, now k)) :=
    .commit ⟨by decide, _, _, rfl, rfl⟩
      (.fail ⟨_, _, .unclocked (by decide) rfl rfl⟩
        (.commit ⟨by decide, _, _, rfl, rfl⟩ (.fail ⟨_, _, .weak (by decide)⟩ .nil)))
  have hroom : ∀ k < 2, (now k).toNat + 2 < 2 ^ 63 := by decide
  have hsetbacks : setbacks now 2 = 1 := by decide
  have hlast : (scripted.afterAll (jitter.take 4)).stats.lastMs = 1000 := by decide
  obtain ⟨-, hminted, hregressions, -, -, -, hdrift, -, -, hticks⟩ :=
    stats_account_for_run rfl hcommits (by decide) hroom
  refine ⟨bytes, now, ⟨hcommits, hroom⟩, hminted, hregressions.trans hsetbacks, ?_, hticks⟩
  rw [hdrift, hlast]
  rfl

end Mint

end TokenMint
