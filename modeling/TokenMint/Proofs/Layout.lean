import TokenMint.Proofs.Words
import TokenMint.Token.Basic

/-!
# The layout of tokens

The five fields of a token tile its 128 bits, so the number that a token spells
is a sum of its fields, each at its place.  Packing cuts every field to its
width, and the order by timestamp and counter is part of the order of numbers
among tokens with the same markers.
-/

namespace TokenMint.Token

theorem toNat_timestamp (token : Token) :
    token.timestamp.toNat = token.value.toNat / 2 ^ 80 % 2 ^ 48 :=
  token.value.toNat_field timestampOffset timestampWidth

theorem toNat_version (token : Token) :
    token.version.toNat = token.value.toNat / 2 ^ 76 % 2 ^ 4 :=
  token.value.toNat_field versionOffset versionWidth

theorem toNat_variant (token : Token) :
    token.variant.toNat = token.value.toNat / 2 ^ 74 % 2 ^ 2 :=
  token.value.toNat_field variantOffset variantWidth

theorem toNat_counter (token : Token) :
    token.counter.toNat = token.value.toNat / 2 ^ 62 % 2 ^ 12 :=
  token.value.toNat_field counterOffset counterWidth

theorem toNat_random (token : Token) :
    token.random.toNat = token.value.toNat % 2 ^ 62 := by
  rw [random, Word128.toNat_field]
  simp [randomOffset, randomWidth]

/-- The fields of a token tile its bits. -/
theorem toNat_value (token : Token) :
    token.value.toNat =
      token.timestamp.toNat * 2 ^ 80 + token.version.toNat * 2 ^ 76 +
        token.variant.toNat * 2 ^ 74 + token.counter.toNat * 2 ^ 62 +
        token.random.toNat := by
  have hbound := token.value.toNat_lt
  rw [toNat_timestamp, toNat_version, toNat_variant, toNat_counter, toNat_random]
  omega

section Pack

variable (timestamp counter random : UInt64)

theorem toNat_timestamp_pack :
    (pack timestamp counter random).timestamp.toNat = timestamp.toNat % 2 ^ 48 := by
  simp (disch := decide) only [pack, Token.timestamp, Word128.field_withField_of_disjoint]
  exact Word128.toNat_field_withField _ _ (by decide)

theorem version_pack : (pack timestamp counter random).version = standardVersion := by
  simp (disch := decide) only [pack, version, Word128.field_withField_of_disjoint]
  exact UInt64.toNat_inj.mp (Word128.toNat_field_withField _ _ (by decide))

theorem variant_pack : (pack timestamp counter random).variant = standardVariant := by
  simp (disch := decide) only [pack, variant, Word128.field_withField_of_disjoint]
  exact UInt64.toNat_inj.mp (Word128.toNat_field_withField _ _ (by decide))

theorem toNat_counter_pack :
    (pack timestamp counter random).counter.toNat = counter.toNat % 2 ^ 12 := by
  simp (disch := decide) only [pack, Token.counter, Word128.field_withField_of_disjoint]
  exact Word128.toNat_field_withField _ _ (by decide)

theorem toNat_random_pack :
    (pack timestamp counter random).random.toNat = random.toNat % 2 ^ 62 := by
  rw [pack, Token.random]
  exact Word128.toNat_field_withField _ _ (by decide)

/-- The random tail leaves the timestamp and the counter alone. -/
theorem pair_pack :
    ((pack timestamp counter random).timestamp, (pack timestamp counter random).counter) =
      ((pack timestamp counter 0).timestamp, (pack timestamp counter 0).counter) := by
  apply Prod.ext
  · apply UInt64.toNat_inj.mp
    rw [toNat_timestamp_pack, toNat_timestamp_pack]
  · apply UInt64.toNat_inj.mp
    rw [toNat_counter_pack, toNat_counter_pack]

end Pack

section Fields

variable (token : Token)

theorem toNat_timestamp_lt : token.timestamp.toNat < 2 ^ 48 := by
  rw [toNat_timestamp]
  exact Nat.mod_lt _ (by decide)

theorem toNat_counter_lt : token.counter.toNat < 2 ^ 12 := by
  rw [toNat_counter]
  exact Nat.mod_lt _ (by decide)

theorem toNat_random_lt : token.random.toNat < 2 ^ 62 := by
  rw [toNat_random]
  exact Nat.mod_lt _ (by decide)

end Fields

/-- No bit of a token lies outside its fields. -/
theorem eq_of_fields {a b : Token} (htimestamp : a.timestamp = b.timestamp)
    (hversion : a.version = b.version) (hvariant : a.variant = b.variant)
    (hcounter : a.counter = b.counter) (hrandom : a.random = b.random) : a = b := by
  have hvalue : a.value.toNat = b.value.toNat := by
    rw [toNat_value, toNat_value, htimestamp, hversion, hvariant, hcounter, hrandom]
  cases a
  cases b
  exact congrArg Token.mk (Word128.toNat_inj hvalue)

/-- Packing the fields of a token that has the standard markers gives it back. -/
theorem pack_fields {token : Token} (hversion : token.version = standardVersion)
    (hvariant : token.variant = standardVariant) :
    pack token.timestamp token.counter token.random = token := by
  have htimestamp := Nat.mod_eq_of_lt token.toNat_timestamp_lt
  have hcounter := Nat.mod_eq_of_lt token.toNat_counter_lt
  have hrandom := Nat.mod_eq_of_lt token.toNat_random_lt
  apply eq_of_fields
  · exact UInt64.toNat_inj.mp ((toNat_timestamp_pack _ _ _).trans htimestamp)
  · exact (version_pack _ _ _).trans hversion.symm
  · exact (variant_pack _ _ _).trans hvariant.symm
  · exact UInt64.toNat_inj.mp ((toNat_counter_pack _ _ _).trans hcounter)
  · exact UInt64.toNat_inj.mp ((toNat_random_pack _ _ _).trans hrandom)

/-- Fields and tokens with the standard markers correspond one to one: packing
reads back, each field cut to its width; a token is the packing of its fields
exactly if its markers are the standard ones; and the five fields are all there
is to a token. -/
theorem layout_is_bijective :
    (∀ timestamp counter random : UInt64,
      (pack timestamp counter random).timestamp.toNat = timestamp.toNat % 2 ^ 48 ∧
        (pack timestamp counter random).counter.toNat = counter.toNat % 2 ^ 12 ∧
        (pack timestamp counter random).random.toNat = random.toNat % 2 ^ 62 ∧
        (pack timestamp counter random).version = 8 ∧
        (pack timestamp counter random).variant = 2) ∧
    (∀ token : Token, pack token.timestamp token.counter token.random = token ↔
      token.version = 8 ∧ token.variant = 2) ∧
    ∀ a b : Token, a = b ↔
      a.timestamp = b.timestamp ∧ a.version = b.version ∧ a.variant = b.variant ∧
        a.counter = b.counter ∧ a.random = b.random := by
  refine ⟨?_, ?_, ?_⟩
  · intro timestamp counter random
    exact ⟨toNat_timestamp_pack _ _ _, toNat_counter_pack _ _ _, toNat_random_pack _ _ _,
      version_pack _ _ _, variant_pack _ _ _⟩
  · intro token
    constructor
    · intro hpack
      rw [← hpack]
      exact ⟨version_pack _ _ _, variant_pack _ _ _⟩
    · rintro ⟨hversion, hvariant⟩
      exact pack_fields hversion hvariant
  · intro a b
    constructor
    · rintro rfl
      exact ⟨rfl, rfl, rfl, rfl, rfl⟩
    · rintro ⟨htimestamp, hversion, hvariant, hcounter, hrandom⟩
      exact eq_of_fields htimestamp hversion hvariant hcounter hrandom

/-- A token comes before another if its timestamp does, or else its counter. -/
theorem compare_eq_lt_iff (a b : Token) :
    a.compare b = .lt ↔
      a.timestamp < b.timestamp ∨ a.timestamp = b.timestamp ∧ a.counter < b.counter := by
  simp only [compare, UInt64.lt_iff_toNat_lt, ← UInt64.toNat_inj]
  split
  · simp [*]
  · split
    · simp only [reduceCtorEq, false_iff]
      omega
    · split
      · simp only [true_iff]
        omega
      · split
        · simp only [reduceCtorEq, false_iff]
          omega
        · simp only [reduceCtorEq, false_iff]
          omega

theorem pair_ne_of_compare_eq_lt {a b : Token} (hcompare : a.compare b = .lt) :
    (a.timestamp, a.counter) ≠ (b.timestamp, b.counter) := by
  intro hpair
  obtain ⟨htimestamp, hcounter⟩ := Prod.mk.inj hpair
  rw [compare_eq_lt_iff, htimestamp, hcounter] at hcompare
  rcases hcompare with hlt | ⟨-, hlt⟩
  · exact UInt64.lt_irrefl _ hlt
  · exact UInt64.lt_irrefl _ hlt

/-- Packing keeps the order of positions inside one window of timestamps. -/
theorem compare_pack_eq_lt {firstMs firstCounter firstWord laterMs laterCounter laterWord :
      UInt64}
    (hfirst : firstCounter.toNat < 4096) (hlater : laterCounter.toNat < 4096)
    (hwindow : firstMs.toNat / 2 ^ 48 = laterMs.toNat / 2 ^ 48)
    (hposition : 4096 * firstMs.toNat + firstCounter.toNat <
      4096 * laterMs.toNat + laterCounter.toNat) :
    (pack firstMs firstCounter firstWord).compare (pack laterMs laterCounter laterWord) = .lt := by
  rw [compare_eq_lt_iff, UInt64.lt_iff_toNat_lt, UInt64.lt_iff_toNat_lt, ← UInt64.toNat_inj]
  simp only [toNat_timestamp_pack, toNat_counter_pack]
  omega

theorem lt_iff_toNat_lt (a b : Token) : a.lt b = true ↔ a.value.toNat < b.value.toNat :=
  Word128.lt_iff_toNat_lt a.value b.value

/-- Among tokens with the same markers, the order by timestamp and counter is
part of the order of numbers. -/
theorem lt_of_compare_eq_lt {a b : Token} (hversion : a.version = b.version)
    (hvariant : a.variant = b.variant) (hcompare : a.compare b = .lt) : a.lt b = true := by
  have hvalueA := a.toNat_value
  have hvalueB := b.toNat_value
  have hcounter := a.toNat_counter
  have hrandom := a.toNat_random
  rw [compare_eq_lt_iff, UInt64.lt_iff_toNat_lt, UInt64.lt_iff_toNat_lt,
    ← UInt64.toNat_inj] at hcompare
  rw [hversion, hvariant] at hvalueA
  rw [lt_iff_toNat_lt]
  omega

end TokenMint.Token
