import TokenMint.Proofs.WordArithmetic

/-!
# Fields of a word

Writing a field replaces the bits at its places and no others, wherever the field
lies and however wide it is said to be.  So reading and writing follow the laws
of a lens: what is written reads back, writing what was read changes nothing, the
last write wins, and fields that share no place do not know of each other.
-/

namespace TokenMint.Word128

/-- Whether a place belongs to the field of `width` bits at `offset`, of which there
are no more than 64. -/
def Covers (offset width place : Nat) : Prop :=
  offset ≤ place ∧ place < offset + min width 64

instance (offset width place : Nat) : Decidable (Covers offset width place) :=
  inferInstanceAs (Decidable (_ ∧ _))

/-- Two fields share no place. -/
def Apart (offset width other wide : Nat) : Prop :=
  ∀ place, Covers offset width place → ¬ Covers other wide place

/-- Fields one behind the other are apart. -/
theorem apart_of_le {offset width other wide : Nat} (hle : offset + min width 64 ≤ other) :
    Apart offset width other wide := by
  intro place hfirst hsecond
  exact absurd (Nat.lt_of_lt_of_le hfirst.2 hle) (Nat.not_lt.mpr hsecond.1)

/-- Words with the same bits are the same. -/
theorem eq_of_testBit {a b : Word128}
    (hbits : ∀ i, i < 128 → a.toNat.testBit i = b.toNat.testBit i) : a = b :=
  toNat_inj (toNat_eq_of_testBit a b.toNat_lt hbits)

section Write

variable (word : Word128) (offset width : Nat) (value : UInt64)

theorem testBit_withField_of_covers {i : Nat} (hi : i < 128) (hcovers : Covers offset width i) :
    (word.withField offset width value).toNat.testBit i = value.toNat.testBit (i - offset) :=
  (testBit_withField word offset width value hi).trans (if_pos hcovers)

theorem testBit_withField_of_not_covers {i : Nat} (hi : i < 128)
    (hout : ¬ Covers offset width i) :
    (word.withField offset width value).toNat.testBit i = word.toNat.testBit i :=
  (testBit_withField word offset width value hi).trans (if_neg hout)

/-- A write shows at the places of the field that the word has, and nowhere else. -/
theorem bit_withField (i : Nat) :
    (word.withField offset width value).bit i =
      if Covers offset width i ∧ i < 128 then value.toNat.testBit (i - offset)
      else word.bit i := by
  rw [bit_eq_testBit, bit_eq_testBit]
  by_cases hi : i < 128
  · by_cases hcovers : Covers offset width i
    · rw [if_pos ⟨hcovers, hi⟩, testBit_withField_of_covers word offset width value hi hcovers]
    · rw [if_neg fun h => hcovers h.1,
        testBit_withField_of_not_covers word offset width value hi hcovers]
  · have hout := Nat.not_lt.mp hi
    rw [if_neg fun h => hi h.2, testBit_toNat_of_ge _ hout, testBit_toNat_of_ge _ hout]

/-- Writing back what was read changes nothing. -/
theorem withField_field : word.withField offset width (word.field offset width) = word := by
  apply eq_of_testBit
  intro i hi
  by_cases hcovers : Covers offset width i
  · have hinside : i - offset < min width 64 := by
      obtain ⟨hlow, hhigh⟩ := hcovers
      omega
    rw [testBit_withField_of_covers _ _ _ _ hi hcovers, testBit_field, decide_eq_true hinside,
      Bool.true_and, Nat.add_sub_cancel' hcovers.1]
  · exact testBit_withField_of_not_covers _ _ _ _ hi hcovers

/-- Of two writes to one field the second counts. -/
theorem withField_withField (first : UInt64) :
    (word.withField offset width first).withField offset width value =
      word.withField offset width value := by
  apply eq_of_testBit
  intro i hi
  by_cases hcovers : Covers offset width i
  · rw [testBit_withField_of_covers _ _ _ _ hi hcovers,
      testBit_withField_of_covers _ _ _ _ hi hcovers]
  · rw [testBit_withField_of_not_covers _ _ _ _ hi hcovers,
      testBit_withField_of_not_covers _ _ _ _ hi hcovers,
      testBit_withField_of_not_covers _ _ _ _ hi hcovers]

/-- A field that runs past the top of the word is the part of it that is there. -/
theorem withField_of_overrun (hover : 128 ≤ offset + min width 64) :
    word.withField offset width value = word.withField offset (128 - offset) value := by
  apply eq_of_testBit
  intro i hi
  have hsame : Covers offset width i ↔ Covers offset (128 - offset) i := by
    unfold Covers
    omega
  by_cases hcovers : Covers offset width i
  · rw [testBit_withField_of_covers _ _ _ _ hi hcovers,
      testBit_withField_of_covers _ _ _ _ hi (hsame.mp hcovers)]
  · rw [testBit_withField_of_not_covers _ _ _ _ hi hcovers,
      testBit_withField_of_not_covers _ _ _ _ hi fun h => hcovers (hsame.mpr h)]

end Write

section Apart

variable (word : Word128) {offset width other wide : Nat}

/-- Writes to fields that are apart may change places. -/
theorem withField_comm (hapart : Apart offset width other wide) (value another : UInt64) :
    (word.withField offset width value).withField other wide another =
      (word.withField other wide another).withField offset width value := by
  apply eq_of_testBit
  intro i hi
  by_cases hfirst : Covers offset width i
  · have hsecond := hapart i hfirst
    rw [testBit_withField_of_not_covers _ _ _ _ hi hsecond,
      testBit_withField_of_covers _ _ _ _ hi hfirst, testBit_withField_of_covers _ _ _ _ hi hfirst]
  · rw [testBit_withField_of_not_covers _ offset _ _ hi hfirst]
    by_cases hsecond : Covers other wide i
    · rw [testBit_withField_of_covers _ _ _ _ hi hsecond,
        testBit_withField_of_covers _ _ _ _ hi hsecond]
    · rw [testBit_withField_of_not_covers _ _ _ _ hi hsecond,
        testBit_withField_of_not_covers _ _ _ _ hi hfirst,
        testBit_withField_of_not_covers _ _ _ _ hi hsecond]

/-- A write is not seen by a field that is apart from it. -/
theorem field_withField_of_apart (hapart : Apart offset width other wide) (value : UInt64) :
    (word.withField offset width value).field other wide = word.field other wide := by
  apply UInt64.toNat_inj.mp
  apply Nat.eq_of_testBit_eq
  intro i
  rw [testBit_field, testBit_field]
  by_cases hin : i < min wide 64
  · have hsecond : Covers other wide (other + i) := ⟨Nat.le_add_right other i, by omega⟩
    have hfirst : ¬ Covers offset width (other + i) := fun h => hapart _ h hsecond
    by_cases hplace : other + i < 128
    · rw [testBit_withField_of_not_covers _ _ _ _ hplace hfirst]
    · have hout := Nat.not_lt.mp hplace
      rw [testBit_toNat_of_ge _ hout, testBit_toNat_of_ge _ hout]
  · rw [decide_eq_false hin, Bool.false_and, Bool.false_and]

theorem Apart.symm (hapart : Apart offset width other wide) : Apart other wide offset width :=
  fun place hsecond hfirst => hapart place hfirst hsecond

end Apart

/-- Reading and writing fields is a lens.  A write shows at the places of its field
and nowhere else, also where the field runs past the top of the word.  A field that
lies in the word reads back what was written, cut to its width; writing back what
was read changes nothing; of two writes the second counts; and writes to two fields
that are apart may change places and are not seen by the other field. -/
theorem fields_are_lenses :
    (∀ (word : Word128) (offset width : Nat) (value : UInt64) (i : Nat),
      (word.withField offset width value).bit i =
        if (offset ≤ i ∧ i < offset + min width 64) ∧ i < 128 then value.toNat.testBit (i - offset)
        else word.bit i) ∧
    (∀ (word : Word128) (offset width : Nat), offset + min width 64 ≤ 128 →
      (∀ value, ((word.withField offset width value).field offset width).toNat =
        value.toNat % 2 ^ min width 64) ∧
      word.withField offset width (word.field offset width) = word ∧
      ∀ first second, (word.withField offset width first).withField offset width second =
        word.withField offset width second) ∧
    (∀ (word : Word128) (offset width other wide : Nat), Apart offset width other wide →
      ∀ value another,
        (word.withField offset width value).withField other wide another =
          (word.withField other wide another).withField offset width value ∧
        (word.withField offset width value).field other wide = word.field other wide ∧
        (word.withField other wide another).field offset width = word.field offset width) ∧
    ∀ (word : Word128) (offset width : Nat) (value : UInt64), 128 ≤ offset + min width 64 →
      word.withField offset width value = word.withField offset (128 - offset) value := by
  refine ⟨bit_withField, ?_, ?_, withField_of_overrun⟩
  · intro word offset width hfits
    refine ⟨?_, withField_field word offset width, ?_⟩
    · intro value
      exact toNat_field_withField word value hfits
    · intro first second
      exact withField_withField word offset width second first
  · intro word offset width other wide hapart value another
    exact ⟨withField_comm word hapart value another, field_withField_of_apart word hapart value,
      field_withField_of_apart word hapart.symm another⟩

/-- A field of 12 bits across the middle of a word, the 2 bits above it, and a field
that is said to have 70 bits and runs past the top from place 120. -/
theorem straddling_fields_are_lenses :
    let word : Word128 := ⟨0x0123456789abcdef, 0xfedcba9876543210⟩
    (62 + min 12 64 ≤ 128 ∧ Apart 62 12 74 2 ∧ 128 ≤ 120 + min 70 64) ∧
      ((word.withField 62 12 0x1abc).field 62 12).toNat = 0xabc ∧
      word.withField 62 12 (word.field 62 12) = word ∧
      (word.withField 62 12 0x1abc).withField 62 12 7 = word.withField 62 12 7 ∧
      (word.withField 62 12 0x1abc).withField 74 2 1 =
        (word.withField 74 2 1).withField 62 12 0x1abc ∧
      (word.withField 62 12 0x1abc).field 74 2 = word.field 74 2 ∧
      word.withField 120 70 0x9999 = ⟨0x9923456789abcdef, 0xfedcba9876543210⟩ := by
  intro word
  have hfits : 62 + min 12 64 ≤ 128 := by decide
  have hapart : Apart 62 12 74 2 := apart_of_le (by decide)
  have hover : 128 ≤ 120 + min 70 64 := by decide
  obtain ⟨-, hlens, hbeside, htop⟩ := fields_are_lenses
  obtain ⟨hread, hback, hlast⟩ := hlens word 62 12 hfits
  obtain ⟨hswap, hunseen, -⟩ := hbeside word 62 12 74 2 hapart 0x1abc 1
  exact ⟨⟨hfits, hapart, hover⟩, hread 0x1abc, hback, hlast 0x1abc 7, hswap, hunseen,
    (htop word 120 70 0x9999 hover).trans (by decide)⟩

end TokenMint.Word128
