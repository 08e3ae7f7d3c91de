import TokenMint.Proofs.Expiry
import TokenMint.Proofs.TokenOrder

/-!
# Ageing

An age is computed without leaving the signed words, whatever the time is.  Ages grow
with time and are no smaller for earlier tokens, so a token that has expired stays
expired, and every token before it has expired with it.
-/

namespace TokenMint.Token

/-- An unsigned word as a signed one, if it keeps its value. -/
def signed? (value : UInt64) : Option Int64 :=
  if (value.toNat : Int) ≤ Int64.maxValue.toInt then some value.toInt64 else none

/-- The negative of a signed word, if there is one. -/
def negative? (value : Int64) : Option Int64 :=
  if -value.toInt ≤ Int64.maxValue.toInt then some (-value) else none

/-- The age of what bears this timestamp, in steps that give up where they would
overflow. -/
def span? (stamp now : UInt64) : Option Int64 :=
  if stamp ≤ now then
    if now - stamp > Int64.maxValue.toUInt64 then some Int64.maxValue
    else signed? (now - stamp)
  else signed? (stamp - now) >>= negative?

section Span

/-- Where no step gives up, the steps are those of an age. -/
theorem age_of_span? {token : Token} {now : UInt64} {span : Int64}
    (hspan : span? token.timestamp now = some span) : token.age now = span := by
  rw [age]
  rw [span?] at hspan
  split
  case isTrue hpast =>
    rw [if_pos hpast] at hspan
    split
    case isTrue hfar =>
      rw [if_pos hfar] at hspan
      exact Option.some.inj hspan
    case isFalse hnear =>
      rw [if_neg hnear, signed?, Option.ite_none_right_eq_some] at hspan
      exact Option.some.inj hspan.2
  case isFalse hfuture =>
    rw [if_neg hfuture] at hspan
    obtain ⟨lead, hlead, hnegative⟩ := Option.bind_eq_some_iff.mp hspan
    rw [signed?, Option.ite_none_right_eq_some] at hlead
    rw [negative?, Option.ite_none_right_eq_some] at hnegative
    rw [Option.some.inj hlead.2]
    exact Option.some.inj hnegative.2

/-- No step gives up as long as the timestamp has 48 bits: a difference that is too large
has been cut before, and one that is turned around is small. -/
theorem exists_span? {stamp : UInt64} (hstamp : stamp.toNat < 2 ^ 48) (now : UInt64) :
    ∃ span, span? stamp now = some span := by
  have hgreatest := Int64.toInt_maxValue
  rw [span?]
  split
  case isTrue hpast =>
    split
    case isTrue => exact ⟨_, rfl⟩
    case isFalse hnear =>
      have hkept : (now - stamp).toNat ≤ 2 ^ 63 - 1 :=
        UInt64.le_iff_toNat_le.mp (UInt64.not_lt.mp hnear)
      exact ⟨_, if_pos (by omega)⟩
  case isFalse hfuture =>
    have hlead := UInt64.toNat_sub_of_le _ _ (UInt64.le_of_lt (UInt64.not_le.mp hfuture))
    have hvalue : (stamp - now).toInt64.toInt = (stamp - now).toNat :=
      toInt_toInt64_of_lt (by omega)
    have hsigned : signed? (stamp - now) = some (stamp - now).toInt64 := if_pos (by omega)
    rw [hsigned, Option.bind_eq_bind, Option.bind_some]
    exact ⟨_, if_pos (by omega)⟩

theorem span?_timestamp (token : Token) (now : UInt64) :
    span? token.timestamp now = some (token.age now) := by
  obtain ⟨span, hspan⟩ := exists_span? token.toNat_timestamp_lt now
  rw [hspan, age_of_span? hspan]

end Span

/-- An earlier token is no younger, and later it is no younger either. -/
theorem age_le_age {a b : Token} {now later : UInt64} (hstamp : a.timestamp ≤ b.timestamp)
    (htime : now ≤ later) : b.age now ≤ a.age later := by
  have hstamps := UInt64.le_iff_toNat_le.mp hstamp
  have htimes := UInt64.le_iff_toNat_le.mp htime
  rw [Int64.le_iff_toInt_le, toInt_age, toInt_age]
  omega

/-- An age is the exact difference of now and the timestamp, cut at the greatest signed
number, and none of the conversions and negations on the way to it overflows; all this
takes is a timestamp of 48 bits.  Ages do not shrink as time goes by. -/
theorem age_is_clamped_difference :
    (∀ (token : Token) (now : UInt64),
      (token.age now).toInt =
          min ((now.toNat : Int) - token.timestamp.toNat) Int64.maxValue.toInt ∧
        span? token.timestamp now = some (token.age now)) ∧
    (∀ stamp now : UInt64, stamp.toNat < 2 ^ 48 → (span? stamp now).isSome) ∧
    ∀ (token : Token) (now later : UInt64), now ≤ later → token.age now ≤ token.age later := by
  refine ⟨?_, ?_, ?_⟩
  · intro token now
    exact ⟨toInt_age token now, span?_timestamp token now⟩
  · intro stamp now hstamp
    exact Option.isSome_iff_exists.mpr (exists_span? hstamp now)
  · intro token now later htime
    exact age_le_age (UInt64.le_refl token.timestamp) htime

/-- The age of a token climbs from below zero to the greatest number. -/
theorem age_climbs_to_greatest :
    let token := pack 1000 0 0
    span? 1000 750 = some (-250) ∧ (span? 0xffffffffffff 0).isSome ∧
      token.age 0xffffffffffffffff = Int64.maxValue ∧
      token.age 750 ≤ token.age 0xffffffffffffffff := by
  intro token
  obtain ⟨hexact, hspans, hmono⟩ := age_is_clamped_difference
  have hstamp : token.timestamp = 1000 := by decide
  have hage : token.age 750 = -250 := by decide
  have hspan := (hexact token 750).2
  rw [hstamp, hage] at hspan
  exact ⟨hspan, hspans _ _ (by decide), by decide, hmono token _ _ (by decide)⟩

/-- Once a token has expired, so have all tokens that are compared as no later, from then
on and for every shorter limit.  A token that is stamped after now has not expired. -/
theorem expiry_is_irreversible :
    (∀ (a b : Token) (now later ttl shorter : UInt64),
      (a.compare b).isLE → now ≤ later → 0 < shorter → shorter ≤ ttl →
        b.isExpired ttl now = true → a.isExpired shorter later = true) ∧
    ∀ (token : Token) (ttl now : UInt64),
      now < token.timestamp → token.isExpired ttl now = false := by
  constructor
  · intro a b now later ttl shorter hcompare htime hlimit hshorter hexpired
    have hages := age_le_age (timestamp_le_of_isLE hcompare) htime
    have hlimits := UInt64.le_iff_toNat_le.mp hshorter
    rw [isExpired_iff_le_age] at hexpired ⊢
    refine ⟨(UInt64.ne_of_lt hlimit).symm, ?_⟩
    calc (shorter.toNat : Int)
      _ ≤ ttl.toNat := Int.ofNat_le.mpr hlimits
      _ ≤ (b.age now).toInt := hexpired.2
      _ ≤ (a.age later).toInt := Int64.le_iff_toInt_le.mp hages
  · intro token ttl now hfuture
    have hlt := UInt64.lt_iff_toNat_lt.mp hfuture
    rw [Bool.eq_false_iff, ne_eq, isExpired_iff_le_age, toInt_age]
    rintro ⟨-, hreached⟩
    omega

/-- A token expires at a time at which the age of the one before it is cut, and a token of
the future has not expired even then. -/
theorem expired_behind_saturation :
    let a := pack 0 0 1
    let b := pack 1 0 0
    b.isExpired 0x7fffffffffffffff 0x8000000000000000 = true ∧
      a.isExpired 1 0xffffffffffffffff = true ∧
      (pack 0xffffffffffff 0 0).isExpired 1 0xfffffffffffe = false := by
  intro a b
  have hexpired : b.isExpired 0x7fffffffffffffff 0x8000000000000000 = true := by decide
  exact ⟨hexpired,
    expiry_is_irreversible.1 a b _ _ _ _ (by decide) (by decide) (by decide) (by decide) hexpired,
    expiry_is_irreversible.2 _ _ _ (by decide)⟩

end TokenMint.Token
