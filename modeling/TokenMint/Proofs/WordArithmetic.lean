import Mathlib.Data.Nat.Bitwise
import Mathlib.Tactic.Ring
import TokenMint.Proofs.Words

/-!
# The arithmetic of words

The operations on 128-bit words are the operations of arithmetic on the numbers
that the words spell, cut to 128 binary digits.  A shift multiplies or divides
by a power of two, whatever the amount; masks act digit by digit; and writing a
field puts a number in place of a stretch of digits.  A run of changes to a word
therefore spells what the same run makes of the number.
-/

namespace TokenMint.Word128

/-- A number with `width` of its binary digits, from place `offset` on, replaced
by the lowest ones of `value`; of the outcome, 128 digits are kept. -/
def splice (number offset width value : Nat) : Nat :=
  (number / 2 ^ (offset + width) * 2 ^ (offset + width) + value % 2 ^ width * 2 ^ offset +
    number % 2 ^ offset) % 2 ^ 128

/-- What a change of a word is to the number that the word spells. -/
def Edit.onNumber (number : Nat) : Edit → Nat
  | .shiftLeft n => number * 2 ^ n % 2 ^ 128
  | .shiftRight n => number / 2 ^ n
  | .and mask => number &&& mask.toNat
  | .or mask => number ||| mask.toNat
  | .xor mask => number ^^^ mask.toNat
  | .complement => 2 ^ 128 - 1 - number
  | .setField offset width value => splice number offset (min width 64) value.toNat

/-- The digits below place 128 tell a word from any other number of that size. -/
theorem toNat_eq_of_testBit (word : Word128) {number : Nat} (hnumber : number < 2 ^ 128)
    (hdigits : ∀ i, i < 128 → word.toNat.testBit i = number.testBit i) :
    word.toNat = number := by
  apply Nat.eq_of_testBit_eq
  intro i
  by_cases hi : i < 128
  · exact hdigits i hi
  · have hsize : 2 ^ 128 ≤ 2 ^ i := Nat.pow_le_pow_right (by decide) (Nat.not_lt.mp hi)
    rw [testBit_toNat_of_ge word (Nat.not_lt.mp hi),
      Nat.testBit_lt_two_pow (Nat.lt_of_lt_of_le hnumber hsize)]

theorem toNat_shiftLeft (word : Word128) (n : Nat) :
    (word <<< n).toNat = word.toNat * 2 ^ n % 2 ^ 128 := by
  apply toNat_eq_of_testBit _ (Nat.mod_lt _ (by decide))
  intro i hi
  rw [testBit_shiftLeft word n hi, Nat.testBit_mod_two_pow, Nat.testBit_mul_two_pow,
    decide_eq_true hi, Bool.true_and]

theorem toNat_shiftRight (word : Word128) (n : Nat) :
    (word >>> n).toNat = word.toNat / 2 ^ n := by
  apply Nat.eq_of_testBit_eq
  intro i
  rw [testBit_shiftRight, Nat.testBit_div_two_pow, Nat.add_comm]

theorem toNat_and (a b : Word128) : (a &&& b).toNat = a.toNat &&& b.toNat := by
  apply Nat.eq_of_testBit_eq
  intro i
  rw [testBit_and, Nat.testBit_and]

theorem toNat_or (a b : Word128) : (a ||| b).toNat = a.toNat ||| b.toNat := by
  apply Nat.eq_of_testBit_eq
  intro i
  rw [testBit_or, Nat.testBit_or]

theorem toNat_xor (a b : Word128) : (a ^^^ b).toNat = a.toNat ^^^ b.toNat := by
  apply Nat.eq_of_testBit_eq
  intro i
  rw [testBit_xor, Nat.testBit_xor]

/-- Turning every digit over is taking the number from the largest one. -/
theorem toNat_complement (word : Word128) : (~~~word).toNat = 2 ^ 128 - 1 - word.toNat := by
  have hflip : 2 ^ 128 - 1 - word.toNat = 2 ^ 128 - (word.toNat + 1) := by
    rw [Nat.sub_sub, Nat.add_comm]
  apply toNat_eq_of_testBit _ (by omega)
  intro i hi
  rw [testBit_complement word hi, hflip, Nat.testBit_two_pow_sub_succ word.toNat_lt,
    decide_eq_true hi, Bool.true_and]

/-- Masking with a single bit asks for that bit. -/
theorem mask_ne_zero (half : UInt64) {n : Nat} (hn : n < 64) :
    (half &&& (1 <<< n.toUInt64) != 0) = half.toNat.testBit n := by
  have hmasked : (half &&& (1 <<< n.toUInt64)).toNat = (half.toNat.testBit n).toNat * 2 ^ n := by
    rw [UInt64.toNat_and, toNat_one_shiftLeft hn, Nat.and_two_pow]
  rw [Bool.eq_iff_iff, bne_iff_ne, ne_eq, ← UInt64.toNat_inj, hmasked]
  cases half.toNat.testBit n with
  | false => simp
  | true => simp

theorem bit_eq_testBit (word : Word128) (n : Nat) : word.bit n = word.toNat.testBit n := by
  unfold bit
  split
  case isTrue hout => rw [testBit_toNat_of_ge word hout]
  case isFalse hin =>
    split
    case isTrue hhigh =>
      rw [mask_ne_zero word.high (by omega), testBit_toNat, if_neg (Nat.not_lt.mpr hhigh)]
    case isFalse hlow =>
      rw [mask_ne_zero word.low (Nat.lt_of_not_le hlow), testBit_toNat,
        if_pos (Nat.lt_of_not_le hlow)]

theorem testBit_splice (number offset width value i : Nat) :
    (splice number offset width value).testBit i =
      (decide (i < 128) &&
        if offset ≤ i ∧ i < offset + width then value.testBit (i - offset)
        else number.testBit i) := by
  have hnested : number / 2 ^ (offset + width) * 2 ^ (offset + width) +
      value % 2 ^ width * 2 ^ offset + number % 2 ^ offset =
        2 ^ offset * (2 ^ width * (number / 2 ^ (offset + width)) + value % 2 ^ width) +
          number % 2 ^ offset := by
    rw [Nat.pow_add]
    ring
  have hfield : value % 2 ^ width < 2 ^ width := Nat.mod_lt _ (Nat.two_pow_pos width)
  have hbelow : number % 2 ^ offset < 2 ^ offset := Nat.mod_lt _ (Nat.two_pow_pos offset)
  rw [splice, Nat.testBit_mod_two_pow, hnested, Nat.testBit_two_pow_mul_add _ hbelow]
  congr 1
  -- From the bottom up: the number's own digits, then those of the value, then the number's again.
  by_cases hoffset : i < offset
  · rw [if_pos hoffset, if_neg fun h => Nat.not_le.mpr hoffset h.1, Nat.testBit_mod_two_pow,
      decide_eq_true hoffset, Bool.true_and]
  · rw [if_neg hoffset, Nat.testBit_two_pow_mul_add _ hfield]
    by_cases hinside : i - offset < width
    · rw [if_pos hinside, if_pos (by omega), Nat.testBit_mod_two_pow, decide_eq_true hinside,
        Bool.true_and]
    · have hplace : i - offset - width + (offset + width) = i := by omega
      rw [if_neg hinside, if_neg (by omega), Nat.testBit_div_two_pow, hplace]

example : splice 0xabcd 4 8 0x15f = 0xa5fd := by
  decide

theorem splice_lt (number offset width value : Nat) : splice number offset width value < 2 ^ 128 :=
  Nat.mod_lt _ (by decide)

theorem toNat_withField (word : Word128) (offset width : Nat) (value : UInt64) :
    (word.withField offset width value).toNat =
      splice word.toNat offset (min width 64) value.toNat := by
  apply toNat_eq_of_testBit _ (splice_lt _ _ _ _)
  intro i hi
  rw [testBit_withField word offset width value hi, testBit_splice, decide_eq_true hi,
    Bool.true_and]

theorem beq_iff_toNat_eq (a b : Word128) : (a == b) = true ↔ a.toNat = b.toNat := by
  rw [beq_iff_eq]
  exact ⟨congrArg toNat, toNat_inj⟩

/-- A change of a word is the same change of its number. -/
theorem toNat_apply (word : Word128) (change : Edit) :
    (Edit.apply word change).toNat = Edit.onNumber word.toNat change := by
  cases change with
  | shiftLeft n => exact toNat_shiftLeft word n
  | shiftRight n => exact toNat_shiftRight word n
  | and mask => exact toNat_and word mask
  | or mask => exact toNat_or word mask
  | xor mask => exact toNat_xor word mask
  | complement => exact toNat_complement word
  | setField offset width value => exact toNat_withField word offset width value

theorem toNat_edit (word : Word128) (changes : List Edit) :
    (word.edit changes).toNat = changes.foldl Edit.onNumber word.toNat :=
  (List.foldl_hom toNat fun word change => (toNat_apply word change).symm).symm

/-- Words are 128-bit numbers.  Shifts by any amount, single bits, masks, both
comparisons and fields of any place and width are those of the numbers, and so
is any run of changes. -/
theorem operations_are_arithmetic :
    (∀ (word : Word128) (n : Nat),
      (word <<< n).toNat = word.toNat * 2 ^ n % 2 ^ 128 ∧
        (word >>> n).toNat = word.toNat / 2 ^ n ∧
        word.bit n = word.toNat.testBit n ∧ word.bit (128 + n) = false) ∧
    (∀ a b : Word128,
      (a &&& b).toNat = a.toNat &&& b.toNat ∧ (a ||| b).toNat = a.toNat ||| b.toNat ∧
        (a ^^^ b).toNat = a.toNat ^^^ b.toNat ∧ (~~~a).toNat = 2 ^ 128 - 1 - a.toNat ∧
        ((a == b) = true ↔ a.toNat = b.toNat) ∧ (a.lt b = true ↔ a.toNat < b.toNat)) ∧
    (∀ (word : Word128) (offset width : Nat),
      (word.field offset width).toNat = word.toNat / 2 ^ offset % 2 ^ min width 64) ∧
    ∀ (word : Word128) (changes : List Edit),
      (word.edit changes).toNat = changes.foldl Edit.onNumber word.toNat := by
  refine ⟨?_, ?_, toNat_field, toNat_edit⟩
  · intro word n
    have hout : word.bit (128 + n) = false := by
      rw [bit_eq_testBit, testBit_toNat_of_ge word (Nat.le_add_right 128 n)]
    exact ⟨toNat_shiftLeft word n, toNat_shiftRight word n, bit_eq_testBit word n, hout⟩
  · intro a b
    exact ⟨toNat_and a b, toNat_or a b, toNat_xor a b, toNat_complement a,
      beq_iff_toNat_eq a b, lt_iff_toNat_lt a b⟩

end TokenMint.Word128
