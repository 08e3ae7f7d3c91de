import Mathlib.Algebra.Group.Nat.Defs
import TokenMint.Hex

/-!
# Reading hexadecimal text

Digits read back as their values, in either style, and so do the digits of a
byte string.  A reader passes over white space wherever it stands, even between
the two digits of a byte, and takes a letter in either case: a text can be
respelled in these ways without a reader noticing.
-/

namespace TokenMint.Hex

section Digits

theorem toNat_digit_lower {value : UInt8} (hvalue : value.toNat < 16) :
    (digit lower value).toNat =
      if value.toNat < 10 then 48 + value.toNat else 87 + value.toNat := by
  have hten : value < 10 ↔ value.toNat < 10 := UInt8.lt_iff_toNat_lt
  unfold digit
  split
  case isTrue hsmall =>
    rw [if_pos (hten.mp hsmall), UInt8.toNat_add]
    change (48 + value.toNat) % 256 = 48 + value.toNat
    omega
  case isFalse hlarge =>
    have hge : 10 ≤ value.toNat := Nat.not_lt.mp (mt hten.mpr hlarge)
    have hsub : (value - 10).toNat = value.toNat - 10 :=
      UInt8.toNat_sub_of_le _ _ (UInt8.le_iff_toNat_le.mpr hge)
    rw [if_neg (Nat.not_lt.mpr hge), if_neg (by decide), UInt8.toNat_add, hsub]
    change (97 + (value.toNat - 10)) % 256 = 87 + value.toNat
    omega

/-- Each digit of each style reads back as its value. -/
theorem digit?_digit (style : Style) {value : UInt8} (hvalue : value.toNat < 16) :
    digit? (digit style value) = some value := by
  have hdigits : ∀ (uppercase : Bool) (n : Fin 16),
      digit? (digit ⟨uppercase⟩ (UInt8.ofNat n)) = some (UInt8.ofNat n) := by
    decide
  have hdigit := hdigits style.uppercase ⟨value.toNat, hvalue⟩
  rw [UInt8.ofNat_toNat] at hdigit
  exact hdigit

theorem digit_inj (style : Style) {a b : UInt8} (ha : a.toNat < 16) (hb : b.toNat < 16) :
    digit style a = digit style b ↔ a = b := by
  constructor
  · intro heq
    have hread := congrArg digit? heq
    rw [digit?_digit style ha, digit?_digit style hb] at hread
    exact Option.some.inj hread
  · rintro rfl
    rfl

theorem toNat_high (byte : UInt8) : (byte >>> 4).toNat = byte.toNat / 16 := by
  rw [UInt8.toNat_shiftRight]
  exact Nat.shiftRight_eq_div_pow byte.toNat 4

theorem toNat_low (byte : UInt8) : (byte &&& 15).toNat = byte.toNat % 16 := by
  rw [UInt8.toNat_and]
  exact Nat.and_two_pow_sub_one_eq_mod byte.toNat 4

theorem toNat_high_lt (byte : UInt8) : (byte >>> 4).toNat < 16 := by
  have hbyte := byte.toNat_lt
  rw [toNat_high]
  omega

theorem toNat_low_lt (byte : UInt8) : (byte &&& 15).toNat < 16 := by
  rw [toNat_low]
  exact Nat.mod_lt _ (by decide)

/-- The halves of a byte, put together again. -/
theorem high_or_low (byte : UInt8) : ((byte >>> 4) <<< 4) ||| (byte &&& 15) = byte := by
  have hbyte := byte.toNat_lt
  have hlow : byte.toNat % 16 < 2 ^ 4 := Nat.mod_lt _ (by decide)
  have hhigh : ((byte >>> 4) <<< 4).toNat = 2 ^ 4 * (byte.toNat / 16) := by
    rw [UInt8.toNat_shiftLeft, toNat_high, Nat.shiftLeft_eq]
    change byte.toNat / 16 * 2 ^ 4 % 2 ^ 8 = _
    omega
  apply UInt8.toNat_inj.mp
  rw [UInt8.toNat_or, hhigh, toNat_low, ← Nat.two_pow_add_eq_or_of_lt hlow]
  exact Nat.div_add_mod byte.toNat 16

end Digits

section Encoding

variable (style : Style)

theorem encode_cons (byte : UInt8) (rest : Bytes) :
    encode style (byte :: rest) = encodeByte style byte ++ encode style rest :=
  rfl

theorem length_encode (data : Bytes) : (encode style data).length = 2 * data.length := by
  induction data with
  | nil => rfl
  | cons byte rest ih =>
      rw [encode_cons, List.length_append, ih, List.length_cons, Nat.mul_succ, Nat.add_comm]
      rfl

theorem encode_append (front back : Bytes) :
    encode style (front ++ back) = encode style front ++ encode style back :=
  List.flatMap_append

/-- The ten figures and the letters from `a` to `f`. -/
def IsLowerDigit (byte : UInt8) : Prop :=
  ('0'.toUInt8 ≤ byte ∧ byte ≤ '9'.toUInt8) ∨ ('a'.toUInt8 ≤ byte ∧ byte ≤ 'f'.toUInt8)

instance (byte : UInt8) : Decidable (IsLowerDigit byte) :=
  inferInstanceAs (Decidable (_ ∨ _))

theorem digit_isLowerDigit {value : UInt8} (hvalue : value.toNat < 16) :
    IsLowerDigit (digit lower value) := by
  have hdigit := toNat_digit_lower hvalue
  simp only [IsLowerDigit, UInt8.le_iff_toNat_le]
  change (48 ≤ _ ∧ _ ≤ 57) ∨ (97 ≤ _ ∧ _ ≤ 102)
  rw [hdigit]
  split
  · omega
  · omega

theorem mem_encode_isLowerDigit {data : Bytes} {byte : UInt8}
    (hbyte : byte ∈ encode lower data) : IsLowerDigit byte := by
  obtain ⟨source, -, hdigit⟩ := List.mem_flatMap.mp hbyte
  simp only [encodeByte, List.mem_cons, List.not_mem_nil, or_false] at hdigit
  rcases hdigit with rfl | rfl
  · exact digit_isLowerDigit (toNat_high_lt source)
  · exact digit_isLowerDigit (toNat_low_lt source)

end Encoding

section Reading

variable (reader : Reader) {byte value : UInt8}

theorem run_digit (hdigit : digit? byte = some value) (rest : Bytes) :
    reader.run (byte :: rest) = (reader.push value).run rest := by
  rw [Reader.run, hdigit]

theorem run_space (hdigit : digit? byte = none) (hspace : isSpace byte = true) (rest : Bytes) :
    reader.run (byte :: rest) = reader.run rest := by
  rw [Reader.run, hdigit]
  exact if_pos hspace

/-- Reading the two digits of a byte completes the byte. -/
theorem run_encodeByte (style : Style) (done : Bytes) (byte : UInt8) (rest : Bytes) :
    (Reader.mk done none).run (encodeByte style byte ++ rest) =
      (Reader.mk (done ++ [byte]) none).run rest := by
  rw [encodeByte, List.cons_append, run_digit _ (digit?_digit style (toNat_high_lt byte)),
    List.singleton_append, run_digit _ (digit?_digit style (toNat_low_lt byte))]
  -- The high digit was pending when the low one came.
  change (Reader.mk (done ++ [((byte >>> 4) <<< 4) ||| (byte &&& 15)]) none).run rest = _
  rw [high_or_low]

theorem run_encode (style : Style) (done data : Bytes) :
    (Reader.mk done none).run (encode style data) = (true, Reader.mk (done ++ data) none) := by
  induction data generalizing done with
  | nil =>
      rw [List.append_nil]
      rfl
  | cons byte rest ih =>
      rw [encode_cons, run_encodeByte, ih, List.append_assoc]
      rfl

/-- Reading undoes writing, whatever the styles. -/
theorem decode_encode (style reading : Style) (data : Bytes) :
    decode (encode style data) reading = some data := by
  rw [decode, Reader.start, run_encode]
  rfl

theorem encode_inj {style : Style} {a b : Bytes} : encode style a = encode style b ↔ a = b := by
  constructor
  · intro heq
    have hread := congrArg (decode · style) heq
    simp only [decode_encode, Option.some.injEq] at hread
    exact hread
  · rintro rfl
    rfl

theorem encodeByte_inj {style : Style} {a b : UInt8} :
    encodeByte style a = encodeByte style b ↔ a = b := by
  have hsingle : encode style [a] = encode style [b] ↔ [a] = [b] := encode_inj
  rw [encode_cons, encode_cons, List.append_left_inj, List.singleton_inj] at hsingle
  exact hsingle

end Reading

section Respelling

/-- Space, tab, carriage return, line feed, form feed and vertical tab. -/
def whiteSpace : Bytes :=
  [' ', '\t', '\r', '\n', '\x0c', '\x0b'].map Char.toUInt8

/-- A letter in its other case.  What is no letter has none. -/
def otherCase (byte : UInt8) : UInt8 :=
  if 'a'.toUInt8 ≤ byte ∧ byte ≤ 'z'.toUInt8 then byte - 32
  else if 'A'.toUInt8 ≤ byte ∧ byte ≤ 'Z'.toUInt8 then byte + 32
  else byte

/-- `Respelled source text`: the text is the source with any of its letters in
the other case, and with any white space between its bytes and around them. -/
inductive Respelled : Bytes → Bytes → Prop where
  | nil : Respelled [] []
  | keep (byte : UInt8) {source text : Bytes} :
      Respelled source text → Respelled (byte :: source) (byte :: text)
  | recase (byte : UInt8) {source text : Bytes} :
      Respelled source text → Respelled (byte :: source) (otherCase byte :: text)
  | space {byte : UInt8} {source text : Bytes} :
      byte ∈ whiteSpace → Respelled source text → Respelled source (byte :: text)

/-- What holds of the 256 values of a byte holds of every byte. -/
theorem forall_byte {holds : UInt8 → Prop} (hvalues : ∀ n : Fin 256, holds (UInt8.ofNat n))
    (byte : UInt8) : holds byte := by
  have hbyte := hvalues ⟨byte.toNat, byte.toNat_lt⟩
  rw [UInt8.ofNat_toNat] at hbyte
  exact hbyte

/-- A reader cannot tell a letter from the same letter in the other case. -/
theorem otherCase_alike (byte : UInt8) :
    digit? (otherCase byte) = digit? byte ∧ isSpace (otherCase byte) = isSpace byte := by
  revert byte
  apply forall_byte
  decide +kernel

/-- A reader passes over white space. -/
theorem whiteSpace_silent :
    ∀ byte ∈ whiteSpace, digit? byte = none ∧ isSpace byte = true := by
  decide +kernel

variable {source text : Bytes}

theorem Respelled.run_eq (hrespelled : Respelled source text) (reader : Reader) :
    reader.run text = reader.run source := by
  induction hrespelled generalizing reader with
  | nil => rfl
  | keep byte _ ih => simp only [Reader.run, ih]
  | recase byte _ ih =>
      obtain ⟨hdigit, hspace⟩ := otherCase_alike byte
      simp only [Reader.run, hdigit, hspace, ih]
  | space hbyte _ ih =>
      obtain ⟨hdigit, hspace⟩ := whiteSpace_silent _ hbyte
      rw [run_space reader hdigit hspace, ih]

/-- However the digits of a byte string are respelled, they still spell it.  The loop that
reads a text into a buffer spells the same (`decodeInto_agrees`). -/
theorem decode_respelled {style : Style} {data text : Bytes}
    (hrespelled : Respelled (encode style data) text) (reading : Style) :
    decode text reading = some data := by
  rw [← decode_encode style reading data, decode, decode, hrespelled.run_eq]

/-- A text with blanks on both sides and inside a byte, in both cases. -/
theorem decode_scattered_digits :
    let text : Bytes := [' ', 'D', '\t', 'e', '\r', '\n', 'a', 'D', '\x0b', '\x0c'].map Char.toUInt8
    Respelled (encode lower [0xde, 0xad]) text ∧ decode text upper = some [0xde, 0xad] := by
  intro text
  have hrespelled : Respelled (encode lower [0xde, 0xad]) text := by
    refine .space (by decide) (.recase _ (.space (by decide) (.keep _ (.space (by decide)
      (.space (by decide) (.keep _ (.recase _ (.space (by decide) (.space (by decide) .nil)))))))))
  exact ⟨hrespelled, decode_respelled hrespelled upper⟩

end Respelling

end TokenMint.Hex
