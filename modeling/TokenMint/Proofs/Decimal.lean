import Mathlib.Data.List.Induction
import Mathlib.Data.Nat.Digits.Defs
import TokenMint.Concat

/-!
# Decimal numerals

Every number has one numeral: digits without a zero in front, unless the zero is all
there is.  The digit buffer has room for the numeral of every 64-bit number, and the
numeral is what is left in it.  Behind a minus sign stands the numeral of the magnitude,
which has 64 bits even for the least number.
-/

namespace TokenMint.Decimal

/-- A figure from zero to nine. -/
def IsFigure (byte : UInt8) : Prop :=
  '0'.toUInt8 ≤ byte ∧ byte ≤ '9'.toUInt8

instance (byte : UInt8) : Decidable (IsFigure byte) :=
  inferInstanceAs (Decidable (_ ∧ _))

/-- The number that a figure stands for. -/
def figureValue (byte : UInt8) : Nat :=
  (byte - '0'.toUInt8).toNat

/-- A numeral: some figures, the first of which is no zero unless it is the only one. -/
structure IsNumeral (text : Bytes) : Prop where
  figures : ∀ byte ∈ text, IsFigure byte
  nonempty : text ≠ []
  lead : text.head? = some '0'.toUInt8 → text = ['0'.toUInt8]

section Figures

variable {a b byte : UInt8}

theorem isDigit_iff : isDigit byte = true ↔ IsFigure byte := by
  simp [isDigit, IsFigure]

theorem zero_notMem_of_figures {text : Bytes} (hfigures : ∀ byte ∈ text, IsFigure byte) :
    0 ∉ text :=
  fun hzero => absurd (hfigures 0 hzero) (by decide)

theorem figureValue_lt (hfigure : IsFigure byte) : figureValue byte < 10 := by
  have hle : byte.toNat ≤ 57 := UInt8.le_iff_toNat_le.mp hfigure.2
  rw [figureValue, UInt8.toNat_sub_of_le _ _ hfigure.1]
  change byte.toNat - 48 < 10
  omega

theorem figureValue_inj (hvalue : figureValue a = figureValue b) : a = b := by
  have hsub : a - '0'.toUInt8 = b - '0'.toUInt8 := UInt8.toNat_inj.mp hvalue
  rw [← UInt8.sub_add_cancel a '0'.toUInt8, hsub, UInt8.sub_add_cancel]

/-- The last figure of a number is its remainder. -/
theorem figure_of_remainder (number : UInt64) :
    IsFigure (digit (number % 10)) ∧ figureValue (digit (number % 10)) = number.toNat % 10 := by
  have hsmall : number.toNat % 10 < 10 := Nat.mod_lt _ (by decide)
  have hremainder : (number % 10).toUInt8.toNat = number.toNat % 10 := by
    rw [UInt64.toNat_toUInt8, UInt64.toNat_mod]
    change number.toNat % 10 % 256 = _
    omega
  have hdigit : (digit (number % 10)).toNat = 48 + number.toNat % 10 := by
    rw [digit, UInt8.toNat_add, hremainder]
    change (48 + number.toNat % 10) % 256 = _
    omega
  have hlow : '0'.toUInt8 ≤ digit (number % 10) := by
    rw [UInt8.le_iff_toNat_le, hdigit]
    exact Nat.le_add_right 48 _
  have hhigh : digit (number % 10) ≤ '9'.toUInt8 := by
    rw [UInt8.le_iff_toNat_le, hdigit]
    exact Nat.add_le_add_left (Nat.le_of_lt_succ hsmall) 48
  refine ⟨⟨hlow, hhigh⟩, ?_⟩
  rw [figureValue, UInt8.toNat_sub_of_le _ _ hlow, hdigit]
  exact Nat.add_sub_cancel_left 48 _

end Figures

/-- The number that a run of figures spells in base ten. -/
def spelled (text : Bytes) : Nat :=
  Nat.ofDigits 10 (text.reverse.map figureValue)

section Spelled

variable {text front : Bytes} {byte : UInt8}

theorem spelled_concat (front : Bytes) (byte : UInt8) :
    spelled (front ++ [byte]) = spelled front * 10 + figureValue byte := by
  rw [spelled, List.reverse_append, List.reverse_singleton, List.singleton_append, List.map_cons,
    Nat.ofDigits_cons, Nat.add_comm, Nat.mul_comm]
  rfl

/-- The value of a run of figures is what they spell. -/
theorem value_eq_spelled (text : Bytes) : value text = spelled text := by
  induction text using List.reverseRecOn with
  | nil => rfl
  | append_singleton front byte ih =>
      rw [spelled_concat, ← ih, value, List.foldl_append]
      rfl

/-- Figures without a zero in front are the digits of what they spell. -/
theorem digits_spelled (hfigures : ∀ byte ∈ text, IsFigure byte)
    (hlead : text.head? ≠ some '0'.toUInt8) :
    Nat.digits 10 (spelled text) = text.reverse.map figureValue := by
  apply Nat.digits_ofDigits 10 (by decide)
  · intro digit hdigit
    obtain ⟨byte, hbyte, rfl⟩ := List.mem_map.mp hdigit
    exact figureValue_lt (hfigures byte (List.mem_reverse.mp hbyte))
  · intro hne hzero
    rw [List.getLast_map, List.getLast_reverse] at hzero
    have hfirst := figureValue_inj (b := '0'.toUInt8) hzero
    apply hlead
    rw [← hfirst]
    exact List.head?_eq_some_head _

end Spelled

section Numerals

variable {text front a b : Bytes} {byte : UInt8}

theorem IsNumeral.spelled_eq_zero_iff (htext : IsNumeral text) :
    spelled text = 0 ↔ text = ['0'.toUInt8] := by
  constructor
  · intro hspelled
    by_contra hne
    have hdigits := digits_spelled htext.figures (mt htext.lead hne)
    rw [hspelled, Nat.digits_zero] at hdigits
    have hnil := List.map_eq_nil_iff.mp hdigits.symm
    exact htext.nonempty (List.reverse_eq_nil_iff.mp hnil)
  · rintro rfl
    rfl

/-- Two numerals of one number are the same. -/
theorem IsNumeral.eq_of_spelled (ha : IsNumeral a) (hb : IsNumeral b)
    (hspelled : spelled a = spelled b) : a = b := by
  by_cases hzero : spelled a = 0
  · rw [ha.spelled_eq_zero_iff.mp hzero, hb.spelled_eq_zero_iff.mp (hspelled ▸ hzero)]
  · have haLead := mt ha.lead (mt ha.spelled_eq_zero_iff.mpr hzero)
    have hbLead := mt hb.lead (mt hb.spelled_eq_zero_iff.mpr (hspelled ▸ hzero))
    have hdigits : a.reverse.map figureValue = b.reverse.map figureValue := by
      rw [← digits_spelled ha.figures haLead, hspelled, digits_spelled hb.figures hbLead]
    have hreverse := (List.map_inj_right fun _ _ => figureValue_inj).mp hdigits
    exact List.reverse_inj.mp hreverse

theorem isNumeral_singleton (hfigure : IsFigure byte) : IsNumeral [byte] := by
  constructor
  · simpa using hfigure
  · simp
  · simp

/-- A figure behind a numeral makes a numeral, unless it stands behind a zero. -/
theorem IsNumeral.concat (hfront : IsNumeral front) (hspelled : spelled front ≠ 0)
    (hfigure : IsFigure byte) : IsNumeral (front ++ [byte]) := by
  constructor
  · rw [List.forall_mem_append]
    exact ⟨hfront.figures, by simpa using hfigure⟩
  · simp
  · intro hlead
    have hkept : (front ++ [byte]).head? = front.head? := by
      simp [List.head?_append, List.head?_eq_some_head hfront.nonempty]
    rw [hkept] at hlead
    exact absurd (hfront.spelled_eq_zero_iff.mpr (hfront.lead hlead)) hspelled

end Numerals

section Buffer

variable {number : UInt64} {free : Nat}

theorem spelled_of_small (hsmall : number / 10 = 0) :
    spelled [digit (number % 10)] = number.toNat := by
  have hquotient : (number / 10).toNat = number.toNat / 10 := UInt64.toNat_div number 10
  rw [hsmall, UInt64.toNat_zero] at hquotient
  have hsingle := spelled_concat [] (digit (number % 10))
  rw [List.nil_append, (figure_of_remainder number).2] at hsingle
  change _ = 0 * 10 + _ at hsingle
  omega

/-- There is room for the numeral of a number in so many free slots, in front of what has
been written. -/
def HasRoom (free : Nat) (number : UInt64) (written : Bytes) : Prop :=
  ∃ text, fill free number written = some (text ++ written) ∧ IsNumeral text ∧
    spelled text = number.toNat ∧ text.length ≤ free

/-- A number of one figure takes one slot. -/
theorem hasRoom_of_small (hsmall : number / 10 = 0) (free : Nat) (written : Bytes) :
    HasRoom (free + 1) number written := by
  have hfill : fill (free + 1) number written = some ([digit (number % 10)] ++ written) := by
    rw [fill, if_pos hsmall]
    rfl
  exact ⟨_, hfill, isNumeral_singleton (figure_of_remainder number).1, spelled_of_small hsmall,
    Nat.succ_le_succ (Nat.zero_le free)⟩

/-- The last figure takes one slot, and those in front of it the rest. -/
theorem HasRoom.succ {written : Bytes} (hlarge : number / 10 ≠ 0)
    (hroom : HasRoom free (number / 10) (digit (number % 10) :: written)) :
    HasRoom (free + 1) number written := by
  obtain ⟨front, hfill, hnumeral, hspelled, hlength⟩ := hroom
  obtain ⟨hfigure, hremainder⟩ := figure_of_remainder number
  have hpositive : spelled front ≠ 0 := by
    rw [hspelled]
    exact fun hzero => hlarge (UInt64.toNat_inj.mp hzero)
  have hquotient : (number / 10).toNat = number.toNat / 10 := UInt64.toNat_div number 10
  refine ⟨front ++ [digit (number % 10)], ?_, hnumeral.concat hpositive hfigure, ?_, ?_⟩
  · rw [fill, if_neg hlarge, hfill, List.append_assoc]
    rfl
  · rw [spelled_concat, hspelled, hquotient, hremainder]
    exact Nat.div_add_mod' number.toNat 10
  · rw [List.length_append]
    exact Nat.succ_le_succ hlength

/-- A slot for each figure of a number is enough. -/
theorem hasRoom_of_lt (hfits : number.toNat < 10 ^ (free + 1)) (written : Bytes) :
    HasRoom (free + 1) number written := by
  induction free generalizing number written with
  | zero =>
      have hsmall : number / 10 = 0 := by
        apply UInt64.toNat_inj.mp
        rw [UInt64.toNat_div]
        exact Nat.div_eq_of_lt hfits
      exact hasRoom_of_small hsmall 0 written
  | succ free ih =>
      by_cases hsmall : number / 10 = 0
      · exact hasRoom_of_small hsmall (free + 1) written
      · have hless : (number / 10).toNat < 10 ^ (free + 1) := by
          rw [UInt64.toNat_div]
          exact Nat.div_lt_of_lt_mul (by rw [Nat.mul_comm]; exact hfits)
        exact (ih hless (digit (number % 10) :: written)).succ hsmall

/-- The buffer has room for every number of 64 bits. -/
theorem ofUInt64_spec (number : UInt64) :
    fill slots number [] = some (ofUInt64 number) ∧ IsNumeral (ofUInt64 number) ∧
      spelled (ofUInt64 number) = number.toNat ∧ (ofUInt64 number).length ≤ slots := by
  have hfits : number.toNat < 10 ^ (19 + 1) := Nat.lt_trans number.toNat_lt (by decide)
  obtain ⟨text, hfill, hnumeral, hspelled, hlength⟩ := hasRoom_of_lt hfits []
  rw [List.append_nil] at hfill
  have htext : ofUInt64 number = text := by
    rw [ofUInt64]
    change (fill (19 + 1) number []).getD [] = text
    rw [hfill]
    rfl
  rw [htext]
  exact ⟨hfill, hnumeral, hspelled, hlength⟩

theorem ofUInt64_inj {a b : UInt64} (heq : ofUInt64 a = ofUInt64 b) : a = b := by
  obtain ⟨-, -, ha, -⟩ := ofUInt64_spec a
  obtain ⟨-, -, hb, -⟩ := ofUInt64_spec b
  apply UInt64.toNat_inj.mp
  rw [← ha, heq, hb]

end Buffer

section Signed

variable {a b number : Int64}

/-- A number from zero up is its own magnitude. -/
theorem toNat_of_nonneg (hsign : ¬ number < 0) :
    number.toUInt64.toNat = number.toInt.natAbs := by
  have hnonneg : ¬ number.toBitVec.toInt < 0 := fun hneg => hsign (Int64.lt_iff_toInt_lt.mpr hneg)
  change number.toBitVec.toNat = number.toBitVec.toInt.natAbs
  rw [BitVec.toInt_eq_toNat_cond] at hnonneg ⊢
  have hbound := number.toBitVec.isLt
  split at hnonneg
  · rename_i hlow
    rw [if_pos hlow, Int.natAbs_natCast]
  · omega

/-- The magnitude of a negative number has 64 bits, also that of the least one. -/
theorem toNat_magnitude (hsign : number < 0) :
    (~~~number.toUInt64 + 1).toNat = number.toInt.natAbs := by
  have hneg : number.toBitVec.toInt < 0 := Int64.lt_iff_toInt_lt.mp hsign
  have hbound := number.toBitVec.isLt
  have hnot : (~~~number.toUInt64).toNat = 2 ^ 64 - 1 - number.toBitVec.toNat :=
    UInt64.toNat_not number.toUInt64
  rw [UInt64.toNat_add, hnot]
  change _ = number.toBitVec.toInt.natAbs
  rw [BitVec.toInt_eq_toNat_cond] at hneg ⊢
  split at hneg
  · omega
  · rename_i hhigh
    rw [if_neg hhigh]
    change (_ + 1) % 2 ^ 64 = _
    omega

/-- The sign of a number as it is written: nothing, unless the number is negative. -/
def sign (number : Int64) : Bytes :=
  if number < 0 then ['-'.toUInt8] else []

/-- Behind its sign stands the numeral of the magnitude of a number. -/
theorem ofInt64_spec (number : Int64) :
    ∃ numeral, ofInt64 number = sign number ++ numeral ∧ IsNumeral numeral ∧
      spelled numeral = number.toInt.natAbs := by
  by_cases hsign : number < 0
  · obtain ⟨-, hnumeral, hspelled, -⟩ := ofUInt64_spec (~~~number.toUInt64 + 1)
    refine ⟨_, ?_, hnumeral, hspelled.trans (toNat_magnitude hsign)⟩
    rw [ofInt64, sign, if_pos hsign, if_pos hsign]
    rfl
  · obtain ⟨-, hnumeral, hspelled, -⟩ := ofUInt64_spec number.toUInt64
    refine ⟨_, ?_, hnumeral, hspelled.trans (toNat_of_nonneg hsign)⟩
    rw [ofInt64, sign, if_neg hsign, if_neg hsign]
    rfl

/-- No numeral starts with a sign. -/
theorem IsNumeral.head_ne_minus {text : Bytes} (htext : IsNumeral text) :
    text.head? ≠ some '-'.toUInt8 := by
  intro hhead
  have hfigure := htext.figures _ (List.mem_of_mem_head? hhead)
  exact absurd hfigure (by decide)

/-- A rendered number starts with a minus sign just if it is negative. -/
theorem head_ofInt64 (number : Int64) :
    (ofInt64 number).head? = some '-'.toUInt8 ↔ number < 0 := by
  obtain ⟨numeral, hrender, hnumeral, -⟩ := ofInt64_spec number
  rw [hrender, sign]
  by_cases hsign : number < 0
  · simp [hsign]
  · simpa [hsign] using hnumeral.head_ne_minus

theorem ofInt64_inj (heq : ofInt64 a = ofInt64 b) : a = b := by
  have hsigns : a < 0 ↔ b < 0 := by
    rw [← head_ofInt64 a, heq, head_ofInt64 b]
  obtain ⟨first, hfirst, -, hfirstSpelled⟩ := ofInt64_spec a
  obtain ⟨second, hsecond, -, hsecondSpelled⟩ := ofInt64_spec b
  have hsign : sign a = sign b := by
    simp only [sign, hsigns]
  rw [hfirst, hsecond, hsign] at heq
  have hmagnitude : a.toInt.natAbs = b.toInt.natAbs := by
    rw [← hfirstSpelled, List.append_cancel_left heq, hsecondSpelled]
  rw [Int64.lt_iff_toInt_lt, Int64.lt_iff_toInt_lt] at hsigns
  change a.toInt < 0 ↔ b.toInt < 0 at hsigns
  apply Int64.toInt_inj.mp
  omega

end Signed

end TokenMint.Decimal
