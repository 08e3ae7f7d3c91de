import TokenMint.Proofs.ByteForm
import TokenMint.Proofs.Hexadecimal
import TokenMint.Proofs.Layout

/-!
# The order of wire forms

Tokens are ordered as numbers, and both wire forms keep that order when they are
compared byte by byte.  Bytes of one length are ordered as the numbers that they
spell.  Lower-case digits are ordered as their values, and the hyphens of a text
stand at fixed places.
-/

namespace TokenMint

/-- Between pieces of one length, the first difference decides. -/
theorem Bytes.append_lt_append_iff {front front' back back' : Bytes}
    (hlength : front.length = front'.length) :
    front ++ back < front' ++ back' ↔ front < front' ∨ front = front' ∧ back < back' := by
  induction front generalizing front' with
  | nil =>
      have hnil : front' = [] := List.length_eq_zero_iff.mp hlength.symm
      subst hnil
      simp
  | cons byte front ih =>
      cases front' with
      | nil => contradiction
      | cons byte' front' =>
          have hrest : front.length = front'.length := Nat.succ.inj hlength
          rw [List.cons_append, List.cons_append, List.cons_lt_cons_iff, List.cons_lt_cons_iff,
            List.cons.injEq, ih hrest, and_or_left, or_assoc, and_assoc]

theorem Bytes.append_lt_append_left_iff {front back back' : Bytes} :
    front ++ back < front ++ back' ↔ back < back' := by
  rw [append_lt_append_iff rfl, or_iff_right (List.lt_irrefl front), and_iff_right rfl]

namespace BigEndian

/-- Leading digits decide between two numbers, and the rest decides if they are
equal. -/
theorem lead_lt_iff {base lead lead' rest rest' : Nat} (hrest : rest < base)
    (hrest' : rest' < base) :
    lead < lead' ∨ lead = lead' ∧ rest < rest' ↔ lead * base + rest < lead' * base + rest' := by
  rcases Nat.lt_trichotomy lead lead' with hlt | rfl | hgt
  · have hstep : (lead + 1) * base ≤ lead' * base := Nat.mul_le_mul_right base hlt
    rw [Nat.succ_mul] at hstep
    constructor
    · intro _
      omega
    · intro _
      exact Or.inl hlt
  · simp
  · have hstep : (lead' + 1) * base ≤ lead * base := Nat.mul_le_mul_right base hgt
    rw [Nat.succ_mul] at hstep
    omega

/-- Bytes of one length are ordered as the numbers that they spell. -/
theorem lt_iff_value_lt {a b : Bytes} (hlength : a.length = b.length) :
    a < b ↔ value a < value b := by
  induction a generalizing b with
  | nil =>
      have hnil : b = [] := List.length_eq_zero_iff.mp hlength.symm
      subst hnil
      simp
  | cons byte a ih =>
      cases b with
      | nil => contradiction
      | cons byte' b =>
          have hrest : a.length = b.length := Nat.succ.inj hlength
          have hbound := value_lt a
          have hbound' := value_lt b
          rw [hrest] at hbound
          rw [List.cons_lt_cons_iff, ih hrest, value_cons, value_cons, hrest,
            UInt8.lt_iff_toNat_lt, ← UInt8.toNat_inj]
          exact lead_lt_iff hbound hbound'

end BigEndian

namespace Hex

/-- Digits are ordered as their values. -/
theorem digit_lower_lt_iff {a b : UInt8} (ha : a.toNat < 16) (hb : b.toNat < 16) :
    digit lower a < digit lower b ↔ a < b := by
  rw [UInt8.lt_iff_toNat_lt, UInt8.lt_iff_toNat_lt, toNat_digit_lower ha, toNat_digit_lower hb]
  split
  · split
    · omega
    · omega
  · split
    · omega
    · omega

/-- The high digit decides between two bytes, and the low one if they share it. -/
theorem encodeByte_lower_lt_iff {a b : UInt8} :
    encodeByte lower a < encodeByte lower b ↔ a < b := by
  simp only [encodeByte, List.cons_lt_cons_iff, List.not_lt_nil, and_false, or_false,
    digit_lower_lt_iff (toNat_high_lt a) (toNat_high_lt b),
    digit_lower_lt_iff (toNat_low_lt a) (toNat_low_lt b),
    digit_inj lower (toNat_high_lt a) (toNat_high_lt b), UInt8.lt_iff_toNat_lt,
    ← UInt8.toNat_inj, toNat_high, toNat_low]
  omega

/-- Digits of bytes are ordered as the bytes. -/
theorem encode_lower_lt_iff {a b : Bytes} (hlength : a.length = b.length) :
    encode lower a < encode lower b ↔ a < b := by
  induction a generalizing b with
  | nil =>
      have hnil : b = [] := List.length_eq_zero_iff.mp hlength.symm
      subst hnil
      simp
  | cons byte a ih =>
      cases b with
      | nil => contradiction
      | cons byte' b =>
          have hpair : (encodeByte lower byte).length = (encodeByte lower byte').length := rfl
          rw [encode_cons, encode_cons, Bytes.append_lt_append_iff hpair, List.cons_lt_cons_iff,
            encodeByte_lower_lt_iff, encodeByte_inj, ih (Nat.succ.inj hlength)]

end Hex

namespace Token

theorem intercalate_groupDigits_cons (hyphen : Bytes) (size size' : Nat) (rest : List Nat)
    (bytes : Bytes) :
    hyphen.intercalate (groupDigits (size :: size' :: rest) bytes) =
      Hex.encode Hex.lower (bytes.take size) ++
        (hyphen ++ hyphen.intercalate (groupDigits (size' :: rest) (bytes.drop size))) := by
  rw [groupDigits, groupDigits, List.intercalate_cons_cons, List.append_assoc]

/-- The last group takes all that is left. -/
theorem take_group {size : Nat} {bytes : Bytes} (hsizes : bytes.length = [size].sum) :
    bytes.take size = bytes :=
  List.take_of_length_le (Nat.le_of_eq hsizes)

/-- A group leaves as many bytes as the sizes of the other groups ask for. -/
theorem length_drop_group {size : Nat} {rest : List Nat} {bytes : Bytes}
    (hsizes : bytes.length = (size :: rest).sum) : (bytes.drop size).length = rest.sum := by
  rw [List.length_drop, hsizes, List.sum_cons, Nat.add_sub_cancel_left]

/-- Digits in groups are ordered as the bytes, wherever the hyphens are. -/
theorem intercalate_groupDigits_lt_iff {hyphen : Bytes} {sizes : List Nat} {a b : Bytes}
    (hlength : a.length = b.length) (hsizes : a.length = sizes.sum) :
    hyphen.intercalate (groupDigits sizes a) < hyphen.intercalate (groupDigits sizes b) ↔
      a < b := by
  induction sizes generalizing a b with
  | nil =>
      have hnilA : a = [] := List.length_eq_zero_iff.mp hsizes
      have hnilB : b = [] := List.length_eq_zero_iff.mp (hlength.symm.trans hsizes)
      subst hnilA hnilB
      simp
  | cons size rest ih =>
      have hgroup : (a.take size).length = (b.take size).length := by
        rw [List.length_take, List.length_take, hlength]
      cases rest with
      | nil =>
          rw [groupDigits, groupDigits, groupDigits, groupDigits, List.intercalate_singleton,
            List.intercalate_singleton, take_group hsizes, take_group (hlength.symm.trans hsizes),
            Hex.encode_lower_lt_iff hlength]
      | cons size' rest =>
          have hdigits : (Hex.encode Hex.lower (a.take size)).length =
              (Hex.encode Hex.lower (b.take size)).length := by
            rw [Hex.length_encode, Hex.length_encode, hgroup]
          have hdrop : (a.drop size).length = (b.drop size).length := by
            rw [List.length_drop, List.length_drop, hlength]
          -- The first groups decide; between equal ones the hyphens are equal too.
          rw [intercalate_groupDigits_cons, intercalate_groupDigits_cons,
            Bytes.append_lt_append_iff hdigits, Hex.encode_lower_lt_iff hgroup,
            Hex.encode_inj, Bytes.append_lt_append_left_iff, ih hdrop (length_drop_group hsizes),
            ← Bytes.append_lt_append_iff hgroup, List.take_append_drop, List.take_append_drop]

theorem lt_iff_toBytes_lt (a b : Token) : a.lt b = true ↔ a.toBytes < b.toBytes := by
  have hlength := (length_toBytes a).trans (length_toBytes b).symm
  rw [lt_iff_toNat_lt, BigEndian.lt_iff_value_lt hlength, toBytes, toBytes,
    BigEndian.value_encode128, BigEndian.value_encode128]

theorem text_lt_iff_toBytes_lt (a b : Token) : a.text < b.text ↔ a.toBytes < b.toBytes := by
  have hlength := (length_toBytes a).trans (length_toBytes b).symm
  have hgroups : groups.sum = 16 := by decide
  rw [text, text,
    intercalate_groupDigits_lt_iff hlength ((length_toBytes a).trans hgroups.symm)]

/-- Groups are appended as their digits, and what was written before stays. -/
theorem appendGroups_cons (written : Bytes) (first : Bool) (size : Nat) (rest : List Nat)
    (bytes : Bytes) :
    appendGroups written first (size :: rest) bytes =
      (if first then written else written ++ ['-'.toUInt8]) ++
        ['-'.toUInt8].intercalate (groupDigits (size :: rest) bytes) := by
  induction rest generalizing written first size bytes with
  | nil =>
      rw [groupDigits, groupDigits, List.intercalate_singleton]
      rfl
  | cons size' rest ih =>
      rw [appendGroups, ih, intercalate_groupDigits_cons, Hex.encodeAppend]
      simp only [Bool.false_eq_true, if_false, List.append_assoc]

theorem appendTo_eq (token : Token) (written : Bytes) :
    token.appendTo written = written ++ token.text :=
  appendGroups_cons written true _ _ token.toBytes

/-- Tokens, their bytes and their texts have one order: a token comes before
another exactly if its bytes do, and exactly if its text does, compared from the
front byte by byte.  The text is what appending the token to nothing writes. -/
theorem wire_forms_keep_order (a b : Token) :
    (a.lt b = true ↔ a.toBytes < b.toBytes) ∧ (a.lt b = true ↔ a.text < b.text) ∧
      (a.lt b = true ↔ a.appendTo [] < b.appendTo []) := by
  have hbytes := lt_iff_toBytes_lt a b
  have htext := text_lt_iff_toBytes_lt a b
  rw [appendTo_eq, appendTo_eq, List.nil_append, List.nil_append, and_self]
  exact ⟨hbytes, hbytes.trans htext.symm⟩

end Token

end TokenMint
