import TokenMint.Proofs.Layout
import TokenMint.Token.Age

/-!
# Expiry

The age of a token is the difference between now and its timestamp, cut at the
greatest 63-bit number.  A token has expired once its age has reached the
limit, so a limit that no age reaches is never reached.
-/

namespace TokenMint.Token

/-- Below half of their range, unsigned words keep their value as signed ones. -/
theorem toInt_toInt64_of_lt {value : UInt64} (hvalue : value.toNat < 2 ^ 63) :
    value.toInt64.toInt = value.toNat := by
  have hhalf : 2 * value.toBitVec.toNat < 2 ^ 64 := by
    change 2 * value.toNat < 2 ^ 64
    omega
  exact BitVec.toInt_eq_toNat_of_lt hhalf

/-- The age is the difference of two times, cut at the greatest signed number. -/
theorem toInt_age (token : Token) (now : UInt64) :
    (token.age now).toInt =
      min ((now.toNat : Int) - token.timestamp.toNat) Int64.maxValue.toInt := by
  have hnow := now.toNat_lt
  have hstamp := token.toNat_timestamp_lt
  have hgreatest := Int64.toInt_maxValue
  unfold age
  split
  case isTrue hpast =>
    have hle := UInt64.le_iff_toNat_le.mp hpast
    have hdiff := UInt64.toNat_sub_of_le _ _ hpast
    split
    case isTrue hfar =>
      have hcut : 2 ^ 63 - 1 < (now - token.timestamp).toNat := UInt64.lt_iff_toNat_lt.mp hfar
      omega
    case isFalse hnear =>
      have hkept : (now - token.timestamp).toNat ≤ 2 ^ 63 - 1 :=
        UInt64.le_iff_toNat_le.mp (UInt64.not_lt.mp hnear)
      rw [toInt_toInt64_of_lt (by omega), hdiff]
      omega
  case isFalse hfuture =>
    have hlt := UInt64.lt_iff_toNat_lt.mp (UInt64.not_le.mp hfuture)
    have hdiff := UInt64.toNat_sub_of_le _ _ (UInt64.le_of_lt (UInt64.not_le.mp hfuture))
    -- A timestamp has 48 bits, so the sign can be turned without an overflow.
    rw [Int64.toInt_neg, toInt_toInt64_of_lt (by omega), hdiff,
      Int.bmod_eq_of_le (by omega) (by omega)]
    omega

/-- A token has expired when its age, as a signed number, has reached the limit. -/
theorem isExpired_iff_le_age (token : Token) (ttl now : UInt64) :
    token.isExpired ttl now = true ↔ ttl ≠ 0 ∧ (ttl.toNat : Int) ≤ (token.age now).toInt := by
  rw [isExpired, Bool.and_eq_true, Bool.and_eq_true, bne_iff_ne, decide_eq_true_iff,
    decide_eq_true_iff]
  constructor
  · rintro ⟨⟨hlimit, hpast⟩, hreached⟩
    have hvalue := Int64.toNat_toUInt64_of_le hpast
    have hpositive : 0 ≤ (token.age now).toInt := Int64.le_iff_toInt_le.mp hpast
    have hle := UInt64.le_iff_toNat_le.mp hreached
    rw [hvalue, Int64.toNatClampNeg] at hle
    exact ⟨hlimit, by omega⟩
  · rintro ⟨hlimit, hreached⟩
    have hpositive : 0 ≤ (token.age now).toInt := Int.le_trans (Int.natCast_nonneg _) hreached
    have hpast : 0 ≤ token.age now := Int64.le_iff_toInt_le.mpr hpositive
    have hvalue := Int64.toNat_toUInt64_of_le hpast
    refine ⟨⟨hlimit, hpast⟩, UInt64.le_iff_toNat_le.mpr ?_⟩
    rw [hvalue, Int64.toNatClampNeg]
    omega

/-- A token has expired exactly if there is a limit, it is stamped no later than
now, the limit lies no further back than that, and the limit is one that an age
can reach, which is below 2^63. -/
theorem expired_iff_old_enough (token : Token) (ttl now : UInt64) :
    token.isExpired ttl now = true ↔
      ttl ≠ 0 ∧ token.timestamp ≤ now ∧
        (ttl.toNat : Int) ≤ (now.toNat : Int) - token.timestamp.toNat ∧ ttl.toNat < 2 ^ 63 := by
  have hgreatest := Int64.toInt_maxValue
  rw [isExpired_iff_le_age, toInt_age, UInt64.le_iff_toNat_le]
  constructor
  · rintro ⟨hlimit, hreached⟩
    refine ⟨hlimit, ?_, ?_, ?_⟩
    · omega
    · omega
    · omega
  · rintro ⟨hlimit, hpast, hold, hreachable⟩
    exact ⟨hlimit, by omega⟩

/-- A token that is 2^63 ms old has not expired after 2^63 ms. -/
theorem half_range_limit_not_reached :
    (pack 0 0 0).isExpired 0x8000000000000000 0x8000000000000000 = false ∧
      (0x8000000000000000 : UInt64) ≠ 0 ∧
      (pack 0 0 0).timestamp ≤ 0x8000000000000000 ∧
      ((0x8000000000000000 : UInt64).toNat : Int) ≤
        ((0x8000000000000000 : UInt64).toNat : Int) - (pack 0 0 0).timestamp.toNat := by
  decide

end TokenMint.Token
