import Mathlib.Algebra.Group.Nat.Defs
import TokenMint.Word128

/-!
# Words as numbers

Every operation on 128-bit words is understood through the bits of the number
that a word spells.  Bit `i` of a word is bit `i` of its low half below 64 and
bit `i - 64` of its high half from there on; fields are stretches of bits.
-/

namespace TokenMint.Word128

/-- The number that the two halves spell. -/
def toNat (word : Word128) : Nat :=
  word.high.toNat * 2 ^ 64 + word.low.toNat

theorem toNat_lt (word : Word128) : word.toNat < 2 ^ 128 := by
  have hhigh := word.high.toNat_lt
  have hlow := word.low.toNat_lt
  simp only [toNat]
  omega

theorem toNat_inj {a b : Word128} (heq : a.toNat = b.toNat) : a = b := by
  have hlowa := a.low.toNat_lt
  have hlowb := b.low.toNat_lt
  simp only [toNat] at heq
  have hhigh : a.high = b.high := UInt64.toNat_inj.mp (by omega)
  have hlow : a.low = b.low := UInt64.toNat_inj.mp (by omega)
  cases a
  cases b
  simp_all

theorem testBit_half_of_ge (half : UInt64) {i : Nat} (hi : 64 ≤ i) :
    half.toNat.testBit i = false := by
  apply Nat.testBit_lt_two_pow
  exact Nat.lt_of_lt_of_le half.toNat_lt (Nat.pow_le_pow_right (by decide) hi)

/-- The bits of a word are those of its halves, one after the other. -/
theorem testBit_toNat (word : Word128) (i : Nat) :
    word.toNat.testBit i =
      if i < 64 then word.low.toNat.testBit i else word.high.toNat.testBit (i - 64) := by
  rw [toNat, Nat.mul_comm, Nat.testBit_two_pow_mul_add _ word.low.toNat_lt]

theorem testBit_toNat_of_ge (word : Word128) {i : Nat} (hi : 128 ≤ i) :
    word.toNat.testBit i = false := by
  rw [testBit_toNat, if_neg (by omega), testBit_half_of_ge _ (by omega)]

theorem toNat_amount {n : Nat} (hn : n < 64) : n.toUInt64.toNat % 64 = n := by
  change n % 2 ^ 64 % 64 = n
  omega

theorem testBit_shiftLeft_half (half : UInt64) {n : Nat} (hn : n < 64) (i : Nat) :
    (half <<< n.toUInt64).toNat.testBit i =
      (decide (i < 64) && (decide (n ≤ i) && half.toNat.testBit (i - n))) := by
  rw [UInt64.toNat_shiftLeft, toNat_amount hn, Nat.testBit_mod_two_pow, Nat.testBit_shiftLeft]

theorem testBit_shiftRight_half (half : UInt64) {n : Nat} (hn : n < 64) (i : Nat) :
    (half >>> n.toUInt64).toNat.testBit i = half.toNat.testBit (n + i) := by
  rw [UInt64.toNat_shiftRight, toNat_amount hn, Nat.testBit_shiftRight]

theorem testBit_and (a b : Word128) (i : Nat) :
    (a &&& b).toNat.testBit i = (a.toNat.testBit i && b.toNat.testBit i) := by
  change (Word128.mk (a.high &&& b.high) (a.low &&& b.low)).toNat.testBit i = _
  simp only [testBit_toNat, UInt64.toNat_and, Nat.testBit_and]
  split <;> rfl

theorem testBit_or (a b : Word128) (i : Nat) :
    (a ||| b).toNat.testBit i = (a.toNat.testBit i || b.toNat.testBit i) := by
  change (Word128.mk (a.high ||| b.high) (a.low ||| b.low)).toNat.testBit i = _
  simp only [testBit_toNat, UInt64.toNat_or, Nat.testBit_or]
  split <;> rfl

theorem testBit_xor (a b : Word128) (i : Nat) :
    (a ^^^ b).toNat.testBit i = (a.toNat.testBit i ^^ b.toNat.testBit i) := by
  change (Word128.mk (a.high ^^^ b.high) (a.low ^^^ b.low)).toNat.testBit i = _
  simp only [testBit_toNat, UInt64.toNat_xor, Nat.testBit_xor]
  split <;> rfl

theorem testBit_complement_half (half : UInt64) {i : Nat} (hi : i < 64) :
    (~~~half).toNat.testBit i = !half.toNat.testBit i := by
  have hsub : UInt64.size - 1 - half.toNat = 2 ^ 64 - (half.toNat + 1) := by
    simp only [UInt64.size]
    omega
  rw [UInt64.toNat_not, hsub, Nat.testBit_two_pow_sub_succ half.toNat_lt]
  simp [hi]

theorem testBit_complement (a : Word128) {i : Nat} (hi : i < 128) :
    (~~~a).toNat.testBit i = !a.toNat.testBit i := by
  change (Word128.mk (~~~a.high) (~~~a.low)).toNat.testBit i = _
  simp only [testBit_toNat]
  by_cases hlow : i < 64
  · rw [if_pos hlow, if_pos hlow, testBit_complement_half _ hlow]
  · rw [if_neg hlow, if_neg hlow, testBit_complement_half _ (by omega)]

/-- A shift down by 64 places or more leaves bits of the high half only. -/
theorem testBit_shiftRight_far (word : Word128) {n : Nat} (hfar : 64 ≤ n) (hn : n < 128)
    (i : Nat) :
    (Word128.mk 0 (word.high >>> (n - 64).toUInt64)).toNat.testBit i =
      word.toNat.testBit (n + i) := by
  have hhigh : ¬ n + i < 64 := by omega
  rw [testBit_toNat, testBit_toNat word, if_neg hhigh]
  by_cases hlow : i < 64
  · have hplace : n - 64 + i = n + i - 64 := by omega
    rw [if_pos hlow, testBit_shiftRight_half _ (by omega), hplace]
  · rw [if_neg hlow, testBit_half_of_ge word.high (by omega)]
    simp

/-- In a shift down by less than 64 places the high half lends its bottom bits. -/
theorem testBit_shiftRight_near (word : Word128) {n : Nat} (hpos : 0 < n) (hn : n < 64)
    (i : Nat) :
    (Word128.mk (word.high >>> n.toUInt64)
      ((word.low >>> n.toUInt64) ||| (word.high <<< (64 - n).toUInt64))).toNat.testBit i =
      word.toNat.testBit (n + i) := by
  rw [testBit_toNat, testBit_toNat word]
  by_cases hlow : i < 64
  · rw [if_pos hlow, UInt64.toNat_or, Nat.testBit_or, testBit_shiftRight_half _ hn,
      testBit_shiftLeft_half _ (by omega)]
    by_cases hown : n + i < 64
    · have hbelow : ¬ 64 - n ≤ i := by omega
      rw [if_pos hown]
      simp [hbelow]
    · have habove : 64 - n ≤ i := by omega
      have hplace : i - (64 - n) = n + i - 64 := by omega
      rw [if_neg hown, testBit_half_of_ge word.low (by omega), hplace]
      simp [hlow, habove]
  · have hhigh : ¬ n + i < 64 := by omega
    have hplace : n + (i - 64) = n + i - 64 := by omega
    rw [if_neg hlow, if_neg hhigh, testBit_shiftRight_half _ hn, hplace]

theorem testBit_shiftRight (word : Word128) (n i : Nat) :
    (word >>> n).toNat.testBit i = word.toNat.testBit (n + i) := by
  change (shiftRight word n).toNat.testBit i = _
  unfold shiftRight
  split
  case isTrue hall =>
    rw [testBit_toNat_of_ge word (by omega)]
    simp [toNat, zero]
  case isFalse hsome =>
    split
    case isTrue hfar => exact testBit_shiftRight_far word hfar (Nat.lt_of_not_le hsome) i
    case isFalse hnear =>
      split
      case isTrue hpos => exact testBit_shiftRight_near word hpos (Nat.lt_of_not_le hnear) i
      case isFalse hnone =>
        have hn : n = 0 := Nat.eq_zero_of_not_pos hnone
        rw [hn, Nat.zero_add]

/-- A shift up by 64 places or more leaves bits of the low half only. -/
theorem testBit_shiftLeft_far (word : Word128) {n i : Nat} (hfar : 64 ≤ n) (hn : n < 128)
    (hi : i < 128) :
    (Word128.mk (word.low <<< (n - 64).toUInt64) 0).toNat.testBit i =
      (decide (n ≤ i) && word.toNat.testBit (i - n)) := by
  rw [testBit_toNat, testBit_toNat word]
  by_cases hlow : i < 64
  · have hbelow : ¬ n ≤ i := by omega
    simp [hlow, hbelow]
  · rw [if_neg hlow, testBit_shiftLeft_half _ (by omega)]
    by_cases hreach : n ≤ i
    · have hinside : i - 64 < 64 := by omega
      have hreachHalf : n - 64 ≤ i - 64 := by omega
      have hplace : i - 64 - (n - 64) = i - n := by omega
      rw [if_pos (by omega), hplace]
      simp [hreach, hinside, hreachHalf]
    · have hreachHalf : ¬ n - 64 ≤ i - 64 := by omega
      simp [hreach, hreachHalf]

/-- In a shift up by less than 64 places the low half lends its top bits. -/
theorem testBit_shiftLeft_near (word : Word128) {n i : Nat} (hpos : 0 < n) (hn : n < 64)
    (hi : i < 128) :
    (Word128.mk ((word.high <<< n.toUInt64) ||| (word.low >>> (64 - n).toUInt64))
      (word.low <<< n.toUInt64)).toNat.testBit i =
      (decide (n ≤ i) && word.toNat.testBit (i - n)) := by
  rw [testBit_toNat, testBit_toNat word]
  by_cases hlow : i < 64
  · have hplace : i - n < 64 := by omega
    rw [if_pos hlow, testBit_shiftLeft_half _ hn, if_pos hplace]
    simp [hlow]
  · have hreach : n ≤ i := by omega
    rw [if_neg hlow, UInt64.toNat_or, Nat.testBit_or, testBit_shiftLeft_half _ hn,
      testBit_shiftRight_half _ (by omega)]
    by_cases hlent : i - n < 64
    · have hbelow : ¬ n ≤ i - 64 := by omega
      have hplace : 64 - n + (i - 64) = i - n := by omega
      rw [if_pos hlent, hplace]
      simp [hbelow, hreach]
    · have hinside : i - 64 < 64 := by omega
      have hreachHalf : n ≤ i - 64 := by omega
      have hplace : i - 64 - n = i - n - 64 := by omega
      rw [if_neg hlent, testBit_half_of_ge word.low (by omega), hplace]
      simp [hinside, hreachHalf, hreach]

theorem testBit_shiftLeft (word : Word128) (n : Nat) {i : Nat} (hi : i < 128) :
    (word <<< n).toNat.testBit i = (decide (n ≤ i) && word.toNat.testBit (i - n)) := by
  change (shiftLeft word n).toNat.testBit i = _
  unfold shiftLeft
  split
  case isTrue hall =>
    have hbelow : ¬ n ≤ i := by omega
    simp [toNat, zero, hbelow]
  case isFalse hsome =>
    split
    case isTrue hfar => exact testBit_shiftLeft_far word hfar (Nat.lt_of_not_le hsome) hi
    case isFalse hnear =>
      split
      case isTrue hpos => exact testBit_shiftLeft_near word hpos (Nat.lt_of_not_le hnear) hi
      case isFalse hnone =>
        have hn : n = 0 := Nat.eq_zero_of_not_pos hnone
        simp [hn]

theorem toNat_one_shiftLeft {width : Nat} (hwidth : width < 64) :
    (1 <<< width.toUInt64 : UInt64).toNat = 2 ^ width := by
  have hlt : 2 ^ width < 2 ^ 64 := Nat.pow_lt_pow_right (by decide) hwidth
  rw [UInt64.toNat_shiftLeft, toNat_amount hwidth, UInt64.toNat_one, Nat.one_shiftLeft,
    Nat.mod_eq_of_lt hlt]

theorem testBit_mask64 (width i : Nat) :
    (mask64 width).toNat.testBit i = decide (i < min width 64) := by
  unfold mask64
  split
  case isTrue hwide =>
    have hall : (0xffffffffffffffff : UInt64).toNat = 2 ^ 64 - 1 := by decide
    rw [hall, Nat.testBit_two_pow_sub_one, Nat.min_eq_right hwide]
  case isFalse hnarrow =>
    have hwidth : width < 64 := by omega
    have hpower := toNat_one_shiftLeft hwidth
    have hone : (1 : UInt64) ≤ 1 <<< width.toUInt64 := by
      rw [UInt64.le_iff_toNat_le, hpower]
      exact Nat.one_le_two_pow
    rw [UInt64.toNat_sub_of_le _ _ hone, hpower]
    change (2 ^ width - 1).testBit i = _
    rw [Nat.testBit_two_pow_sub_one, Nat.min_eq_left (by omega)]

/-- The bits of a field are the bits of the word from its offset on. -/
theorem testBit_field (word : Word128) (offset width i : Nat) :
    (word.field offset width).toNat.testBit i =
      (decide (i < min width 64) && word.toNat.testBit (offset + i)) := by
  rw [field, UInt64.toNat_and, Nat.testBit_and, testBit_mask64, Bool.and_comm]
  by_cases hi : i < min width 64
  · have hlow : i < 64 := by omega
    have hshift := testBit_shiftRight word offset i
    rw [testBit_toNat, if_pos hlow] at hshift
    rw [hshift]
  · simp [hi]

/-- A field is a quotient of the word, cut to the width of the field. -/
theorem toNat_field (word : Word128) (offset width : Nat) :
    (word.field offset width).toNat = word.toNat / 2 ^ offset % 2 ^ min width 64 := by
  apply Nat.eq_of_testBit_eq
  intro i
  rw [testBit_field, Nat.testBit_mod_two_pow, Nat.testBit_div_two_pow, Nat.add_comm offset i]

theorem testBit_ofUInt64 (value : UInt64) (i : Nat) :
    (ofUInt64 value).toNat.testBit i = value.toNat.testBit i := by
  simp [ofUInt64, toNat]

/-- Writing a field changes its own bits and no others. -/
theorem testBit_withField (word : Word128) (offset width : Nat) (value : UInt64) {i : Nat}
    (hi : i < 128) :
    (word.withField offset width value).toNat.testBit i =
      if offset ≤ i ∧ i < offset + min width 64 then value.toNat.testBit (i - offset)
      else word.toNat.testBit i := by
  rw [withField, testBit_or, testBit_and, testBit_complement _ hi, testBit_shiftLeft _ _ hi,
    testBit_shiftLeft _ _ hi, testBit_ofUInt64, testBit_ofUInt64, UInt64.toNat_and,
    Nat.testBit_and, testBit_mask64]
  by_cases hbelow : offset ≤ i
  · by_cases hinside : i < offset + min width 64
    · have hplace : i - offset < min width 64 := by omega
      rw [if_pos ⟨hbelow, hinside⟩, decide_eq_true hbelow, decide_eq_true hplace]
      simp
    · have hplace : ¬ i - offset < min width 64 := by omega
      rw [if_neg fun h => hinside h.2, decide_eq_false hplace]
      simp
  · rw [if_neg fun h => hbelow h.1, decide_eq_false hbelow]
    simp

/-- A field that lies in the word reads back what was written, cut to its width. -/
theorem toNat_field_withField (word : Word128) {offset width : Nat} (value : UInt64)
    (hfits : offset + min width 64 ≤ 128) :
    ((word.withField offset width value).field offset width).toNat =
      value.toNat % 2 ^ min width 64 := by
  apply Nat.eq_of_testBit_eq
  intro i
  rw [testBit_field, Nat.testBit_mod_two_pow]
  by_cases hi : i < min width 64
  · rw [testBit_withField _ _ _ _ (by omega), if_pos (by omega), Nat.add_sub_cancel_left]
  · simp [hi]

/-- Writing a field leaves the fields beside it alone. -/
theorem field_withField_of_disjoint (word : Word128) {offset width other wide : Nat}
    (value : UInt64) (hfits : other + min wide 64 ≤ 128)
    (hapart : other + min wide 64 ≤ offset ∨ offset + min width 64 ≤ other) :
    (word.withField offset width value).field other wide = word.field other wide := by
  apply UInt64.toNat_inj.mp
  apply Nat.eq_of_testBit_eq
  intro i
  rw [testBit_field, testBit_field]
  by_cases hi : i < min wide 64
  · rw [testBit_withField _ _ _ _ (by omega), if_neg (by omega)]
  · simp [hi]

/-- The order of words is the order of the numbers they spell. -/
theorem lt_iff_toNat_lt (a b : Word128) : a.lt b = true ↔ a.toNat < b.toNat := by
  have hlowa := a.low.toNat_lt
  have hlowb := b.low.toNat_lt
  simp only [lt, toNat, Bool.or_eq_true, Bool.and_eq_true, decide_eq_true_eq, beq_iff_eq,
    UInt64.lt_iff_toNat_lt, ← UInt64.toNat_inj]
  omega

end TokenMint.Word128
