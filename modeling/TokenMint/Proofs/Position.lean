import Mathlib.Algebra.Group.Nat.Defs
import TokenMint.Generator.Basic

/-!
# Positions of a generator

A timestamp and a counter together are one number, the position of the
generator.  A commit takes the least position that is neither taken already nor
behind the clock, so three kinds of move and a carry are a single maximum.
-/

namespace TokenMint.Generator

/-- The place of the present timestamp and counter among all pairs. -/
def position (generator : Generator) : Nat :=
  4096 * generator.lastMs.toNat + generator.counter.toNat

/-- The least position that is still free. -/
def floor (generator : Generator) : Nat :=
  if generator.started then generator.position + 1 else 0

/-- The invariant of every generator: its counter fits the field of a token. -/
def Sound (generator : Generator) : Prop :=
  generator.counter ≤ Token.maxCounter

/-- The timestamp was at its greatest value and starts again at zero. -/
def Overruns (before after : Generator) : Prop :=
  before.lastMs = 0xffffffffffffffff ∧ after.lastMs = 0

instance (before after : Generator) : Decidable (Overruns before after) :=
  inferInstanceAs (Decidable (_ ∧ _))

theorem fresh_sound : fresh.Sound :=
  UInt64.zero_le

theorem Sound.counter_lt {generator : Generator} (hsound : generator.Sound) :
    generator.counter.toNat < 4096 :=
  Nat.lt_succ_of_le (UInt64.le_iff_toNat_le.mp hsound)

theorem Sound.lastMs_eq {generator : Generator} (hsound : generator.Sound) :
    (generator.position / 4096).toUInt64 = generator.lastMs := by
  have hcounter := hsound.counter_lt
  have hlast := generator.lastMs.toNat_lt
  apply UInt64.toNat_inj.mp
  change generator.position / 4096 % 2 ^ 64 = generator.lastMs.toNat
  rw [position]
  omega

theorem Sound.counter_eq {generator : Generator} (hsound : generator.Sound) :
    (generator.position % 4096).toUInt64 = generator.counter := by
  have hcounter := hsound.counter_lt
  apply UInt64.toNat_inj.mp
  change generator.position % 4096 % 2 ^ 64 = generator.counter.toNat
  rw [position]
  omega

section Advance

variable {generator : Generator} {now : UInt64}

theorem advance_of_ahead (hahead : generator.started = false ∨ generator.lastMs < now) :
    generator.advance now =
      (false, { generator with started := true, lastMs := now, counter := 0 }) := by
  rw [advance, if_pos]
  simpa using hahead

theorem advance_of_room (hkept : generator.started = true ∧ now ≤ generator.lastMs)
    (hroom : generator.counter + 1 ≤ Token.maxCounter) :
    generator.advance now = (false, { generator with counter := generator.counter + 1 }) := by
  rw [advance, if_neg (by simpa using hkept), if_neg (UInt64.not_lt.mpr hroom)]

theorem advance_of_full (hkept : generator.started = true ∧ now ≤ generator.lastMs)
    (hfull : Token.maxCounter < generator.counter + 1) :
    generator.advance now =
      (true, { generator with
        lastMs := generator.lastMs + 1
        counter := 0
        stats := { generator.stats with forcedTicks := generator.stats.forcedTicks + 1 } }) := by
  rw [advance, if_neg (by simpa using hkept), if_pos hfull]

end Advance

section Commit

variable (generator : Generator) (now word : UInt64)

/-- A commit starts the generator.  It moves to the clock, to the next counter,
or to the next millisecond, and it says which. -/
theorem commit_cases :
    (generator.commit now word).2.started = true ∧
      (((generator.started = false ∨ generator.lastMs < now) ∧
          (generator.commit now word).2.lastMs = now ∧
          (generator.commit now word).2.counter = 0 ∧
          (generator.commit now word).1.forced = false) ∨
        ((generator.started = true ∧ now ≤ generator.lastMs) ∧
          generator.counter + 1 ≤ Token.maxCounter ∧
          (generator.commit now word).2.lastMs = generator.lastMs ∧
          (generator.commit now word).2.counter = generator.counter + 1 ∧
          (generator.commit now word).1.forced = false) ∨
        ((generator.started = true ∧ now ≤ generator.lastMs) ∧
          Token.maxCounter < generator.counter + 1 ∧
          (generator.commit now word).2.lastMs = generator.lastMs + 1 ∧
          (generator.commit now word).2.counter = 0 ∧
          (generator.commit now word).1.forced = true)) := by
  by_cases hahead : generator.started = false ∨ generator.lastMs < now
  · have hmove := @advance_of_ahead (generator.observe now) now hahead
    rw [commit, hmove]
    exact ⟨rfl, Or.inl ⟨hahead, rfl, rfl, rfl⟩⟩
  · have hkept : generator.started = true ∧ now ≤ generator.lastMs := by
      simpa using hahead
    by_cases hfull : Token.maxCounter < generator.counter + 1
    · have hmove := @advance_of_full (generator.observe now) now hkept hfull
      rw [commit, hmove]
      exact ⟨hkept.1, Or.inr (Or.inr ⟨hkept, hfull, rfl, rfl, rfl⟩)⟩
    · have hroom : generator.counter + 1 ≤ Token.maxCounter := UInt64.not_lt.mp hfull
      have hmove := @advance_of_room (generator.observe now) now hkept hroom
      rw [commit, hmove]
      exact ⟨hkept.1, Or.inr (Or.inl ⟨hkept, hroom, rfl, rfl, rfl⟩)⟩

theorem commit_started : (generator.commit now word).2.started = true :=
  (commit_cases generator now word).1

theorem commit_floor :
    (generator.commit now word).2.floor = (generator.commit now word).2.position + 1 := by
  rw [floor, if_pos (commit_started generator now word)]

/-- The word of a token has no influence on the generator. -/
theorem commit_word (other : UInt64) :
    (generator.commit now word).2 = (generator.commit now other).2 :=
  rfl

end Commit

theorem commit_sound {generator : Generator} (now word : UInt64) :
    (generator.commit now word).2.Sound := by
  obtain ⟨-, ⟨-, -, hcounter, -⟩ | ⟨-, hroom, -, hcounter, -⟩ | ⟨-, -, -, hcounter, -⟩⟩ :=
    commit_cases generator now word
  · rw [Sound, hcounter]
    decide
  · rw [Sound, hcounter]
    exact hroom
  · rw [Sound, hcounter]
    decide

/-- A generator without a free position overruns at its next commit. -/
theorem overruns_commit_of_le_floor {generator : Generator} (hsound : generator.Sound)
    (hfull : 2 ^ 76 ≤ generator.floor) (now word : UInt64) :
    Overruns generator (generator.commit now word).2 := by
  have hcounter := hsound.counter_lt
  have hlast := generator.lastMs.toNat_lt
  have hnow := now.toNat_lt
  have hstarted : generator.started = true := by
    cases hstarted : generator.started with
    | true => rfl
    | false => simp [floor, hstarted] at hfull
  rw [floor, if_pos hstarted, position] at hfull
  have hvalue : generator.lastMs.toNat = 2 ^ 64 - 1 := by omega
  have hgreatest : generator.lastMs = 0xffffffffffffffff := UInt64.toNat_inj.mp hvalue
  obtain ⟨-, ⟨hahead, -⟩ | ⟨-, hroom, -⟩ | ⟨-, -, hlater, -⟩⟩ :=
    commit_cases generator now word
  · have hafter := UInt64.lt_iff_toNat_lt.mp (hahead.resolve_left (by simp [hstarted]))
    omega
  · have hnext := UInt64.le_iff_toNat_le.mp hroom
    rw [UInt64.toNat_add] at hnext
    change (generator.counter.toNat + 1) % 2 ^ 64 ≤ 4095 at hnext
    omega
  · refine ⟨hgreatest, ?_⟩
    rw [hlater, hgreatest]
    decide

theorem floor_lt_of_not_overruns {generator : Generator} (hsound : generator.Sound)
    (now word : UInt64) (hwithin : ¬ Overruns generator (generator.commit now word).2) :
    generator.floor < 2 ^ 76 := by
  rcases Nat.lt_or_ge generator.floor (2 ^ 76) with hroom | hfull
  · exact hroom
  · exact absurd (overruns_commit_of_le_floor hsound hfull now word) hwithin

/-- The position after a commit is the least one that is free and not behind the
clock. -/
theorem position_commit {generator : Generator} (hsound : generator.Sound)
    (hroom : generator.floor < 2 ^ 76) (now word : UInt64) :
    (generator.commit now word).2.position = max generator.floor (4096 * now.toNat) := by
  have hcounter := hsound.counter_lt
  obtain ⟨-, ⟨hahead, hlast, hzero, -⟩ | ⟨⟨hstarted, hbehind⟩, hnext, hlast, hcount, -⟩ |
      ⟨⟨hstarted, hbehind⟩, hfull, hlast, hzero, -⟩⟩ := commit_cases generator now word
  · rw [position, hlast, hzero, floor]
    by_cases hstarted : generator.started = true
    · have hafter := UInt64.lt_iff_toNat_lt.mp (hahead.resolve_left (by simp [hstarted]))
      rw [if_pos hstarted, position]
      simp only [UInt64.toNat_zero]
      omega
    · rw [if_neg hstarted]
      simp
  · have hle := UInt64.le_iff_toNat_le.mp hbehind
    rw [position, hlast, hcount, floor, if_pos hstarted, position, UInt64.toNat_add]
    change 4096 * generator.lastMs.toNat + (generator.counter.toNat + 1) % 2 ^ 64 = _
    omega
  · have hle := UInt64.le_iff_toNat_le.mp hbehind
    have hlt := UInt64.lt_iff_toNat_lt.mp hfull
    rw [UInt64.toNat_add] at hlt
    change 4095 < (generator.counter.toNat + 1) % 2 ^ 64 at hlt
    rw [floor, if_pos hstarted, position] at hroom ⊢
    rw [position, hlast, hzero, UInt64.toNat_add]
    change 4096 * ((generator.lastMs.toNat + 1) % 2 ^ 64) + 0 = _
    omega

/-- How a commit moves the positions of a generator: it takes a free one, and
that one and all before it are free no more. -/
structure Advances (before after : Generator) : Prop where
  sound : after.Sound
  takes : before.floor ≤ after.position
  leaves : after.floor = after.position + 1

theorem commit_advances {generator : Generator} (hsound : generator.Sound) (now word : UInt64)
    (hwithin : ¬ Overruns generator (generator.commit now word).2) :
    Advances generator (generator.commit now word).2 := by
  have hroom := floor_lt_of_not_overruns hsound now word hwithin
  refine ⟨commit_sound now word, ?_, commit_floor generator now word⟩
  rw [position_commit hsound hroom now word]
  exact Nat.le_max_left _ _

/-- A timestamp below 2^48 is far from running over. -/
theorem commit_advances_of_lt {generator : Generator} (hsound : generator.Sound)
    (hlast : generator.lastMs.toNat < 2 ^ 48) (now word : UInt64) :
    Advances generator (generator.commit now word).2 := by
  apply commit_advances hsound
  intro hover
  rw [hover.1] at hlast
  exact absurd hlast (by decide)

theorem Sound.floor_le {generator : Generator} (hsound : generator.Sound)
    (hlast : generator.lastMs.toNat < 2 ^ 48) : generator.floor ≤ 2 ^ 60 := by
  have hcounter := hsound.counter_lt
  rw [floor, position]
  split
  · omega
  · omega

end TokenMint.Generator
