import TokenMint.Proofs.Hexadecimal

/-!
# The grammar of hexadecimal text

A text spells bytes exactly if it has nothing but digits and white space in it.  The
bytes are those that are written as the digits of the text, small letters for capital
ones, with a zero behind the last digit if their number is odd.  A reader keeps no more
of a text than these digits, so the spelling of two texts together is that of the first
and then that of the second, unless a digit of the first is left over.
-/

namespace TokenMint.Hex

/-- The ten figures, and the letters from `a` to `f` in both cases. -/
def alphabet : Bytes :=
  ascii "0123456789abcdefABCDEF"

/-- A byte with a small letter in place of a capital one. -/
def toLower (byte : UInt8) : UInt8 :=
  if 'A'.toUInt8 ≤ byte ∧ byte ≤ 'Z'.toUInt8 then byte + 32 else byte

/-- A text of digits and white space. -/
def IsSpelling (text : Bytes) : Prop :=
  ∀ byte ∈ text, byte ∈ alphabet ∨ byte ∈ whiteSpace

instance (text : Bytes) : Decidable (IsSpelling text) :=
  inferInstanceAs (Decidable (∀ byte ∈ text, _))

/-- The digits of a text in order, with small letters. -/
def digitsOf (text : Bytes) : Bytes :=
  (text.filter (· ∈ alphabet)).map toLower

/-- The zero that fills up an odd number of digits. -/
def padding (count : Nat) : Bytes :=
  if count % 2 = 1 then ['0'.toUInt8] else []

section Bytes

variable {byte value high low : UInt8}

/-- The bytes that have a value are the digits, and each is the digit of its value. -/
theorem digit?_alphabet (byte : UInt8) :
    ((digit? byte).isSome ↔ byte ∈ alphabet) ∧
      ∀ value ∈ digit? byte, value.toNat < 16 ∧ digit lower value = toLower byte := by
  revert byte
  apply forall_byte
  decide +kernel

theorem mem_alphabet_of_digit? (hdigit : digit? byte = some value) : byte ∈ alphabet := by
  rw [← (digit?_alphabet byte).1, hdigit]
  rfl

theorem not_mem_alphabet_of_digit? (hdigit : digit? byte = none) : byte ∉ alphabet := by
  rw [← (digit?_alphabet byte).1, hdigit]
  exact Bool.false_ne_true

theorem isSpace_iff (byte : UInt8) : isSpace byte = true ↔ byte ∈ whiteSpace := by
  have hsix : whiteSpace = [0x20, 0x09, 0x0d, 0x0a, 0x0c, 0x0b] := by decide
  simp [isSpace, hsix, or_assoc]

/-- Two digits make the byte that is written with them. -/
theorem encodeByte_join (hhigh : high.toNat < 16) (hlow : low.toNat < 16) :
    encodeByte lower ((high <<< 4) ||| low) = [digit lower high, digit lower low] := by
  have hshift : (high <<< 4).toNat = 2 ^ 4 * high.toNat := by
    rw [UInt8.toNat_shiftLeft, Nat.shiftLeft_eq]
    change high.toNat * 2 ^ 4 % 2 ^ 8 = _
    omega
  have hbyte : ((high <<< 4) ||| low).toNat = 16 * high.toNat + low.toNat := by
    rw [UInt8.toNat_or, hshift, ← Nat.two_pow_add_eq_or_of_lt hlow]
  have hupper : ((high <<< 4) ||| low) >>> 4 = high := by
    apply UInt8.toNat_inj.mp
    rw [toNat_high, hbyte]
    omega
  have hunder : ((high <<< 4) ||| low) &&& 15 = low := by
    apply UInt8.toNat_inj.mp
    rw [toNat_low, hbyte]
    omega
  rw [encodeByte, hupper, hunder]

/-- A digit that stands alone makes the byte that is written with a zero behind it. -/
theorem encodeByte_alone (hhigh : high.toNat < 16) :
    encodeByte lower (high <<< 4) = [digit lower high, '0'.toUInt8] := by
  have hjoin := encodeByte_join hhigh (by decide : (0 : UInt8).toNat < 16)
  rw [UInt8.or_zero] at hjoin
  exact hjoin

end Bytes

section Digits

variable {byte : UInt8} (text : Bytes)

theorem digitsOf_digit (hdigit : byte ∈ alphabet) :
    digitsOf (byte :: text) = toLower byte :: digitsOf text := by
  simp [digitsOf, hdigit]

theorem digitsOf_other (hother : byte ∉ alphabet) : digitsOf (byte :: text) = digitsOf text := by
  simp [digitsOf, hother]

theorem digitsOf_append (front back : Bytes) :
    digitsOf (front ++ back) = digitsOf front ++ digitsOf back := by
  simp [digitsOf]

theorem length_digitsOf : (digitsOf text).length = (text.filter (· ∈ alphabet)).length :=
  List.length_map _

theorem length_padding (count : Nat) : (padding count).length = count % 2 := by
  rw [padding]
  split
  · simp_all
  · simp_all

/-- An even number of digits in front does not matter for the zero at the end. -/
theorem padding_add {count : Nat} (heven : count % 2 = 0) (more : Nat) :
    padding (count + more) = padding more := by
  rw [padding, padding, Nat.add_mod, heven, Nat.zero_add, Nat.mod_mod]

theorem isSpelling_append {front back : Bytes} :
    IsSpelling (front ++ back) ↔ IsSpelling front ∧ IsSpelling back :=
  List.forall_mem_append

end Digits

namespace Reader

/-- The pending digit of a reader is the value of a digit. -/
def Sound (reader : Reader) : Prop :=
  ∀ value ∈ reader.pending, value.toNat < 16

/-- The digits that a reader has taken in, with small letters. -/
def digits (reader : Reader) : Bytes :=
  encode lower reader.done ++ (reader.pending.map (digit lower)).toList

variable {reader : Reader} {value : UInt8} {text : Bytes}

theorem start_sound : start.Sound :=
  nofun

theorem push_sound (hvalue : value.toNat < 16) : (reader.push value).Sound := by
  obtain ⟨done, pending⟩ := reader
  cases pending with
  | none =>
      intro pushed hpushed
      cases hpushed
      exact hvalue
  | some high => exact nofun

theorem digits_push (hsound : reader.Sound) (hvalue : value.toNat < 16) :
    (reader.push value).digits = reader.digits ++ [digit lower value] := by
  obtain ⟨done, pending⟩ := reader
  cases pending with
  | none => simp [push, digits]
  | some high =>
      have hjoin := encodeByte_join (hsound high rfl) hvalue
      have hlast : encode lower [(high <<< 4) ||| value] = [digit lower high, digit lower value] := by
        rw [encode_cons, hjoin]
        rfl
      simp [push, digits, encode_append, hlast]

/-- At the end, a digit that is left over gets a zero behind it. -/
theorem encode_finish (hsound : reader.Sound) :
    encode lower reader.finish = reader.digits ++ padding reader.digits.length := by
  obtain ⟨done, pending⟩ := reader
  have hdone : (encode lower done).length % 2 = 0 := by
    rw [length_encode]
    exact Nat.mul_mod_right 2 done.length
  cases pending with
  | none =>
      have hpadding : padding (encode lower done).length = [] := by
        rw [padding, hdone]
        rfl
      simp [finish, digits, hpadding]
  | some high =>
      have halone := encodeByte_alone (hsound high rfl)
      have hlast : encode lower [high <<< 4] = [digit lower high, '0'.toUInt8] := by
        rw [encode_cons, halone]
        rfl
      have hpadding : padding ((encode lower done).length + 1) = ['0'.toUInt8] := by
        rw [padding_add hdone]
        rfl
      simp [finish, digits, encode_append, hlast, hpadding]

theorem run_stop (reader : Reader) {byte : UInt8} (hdigit : digit? byte = none)
    (hspace : isSpace byte = false) (rest : Bytes) :
    reader.run (byte :: rest) = (false, reader) := by
  rw [run, hdigit]
  exact if_neg (by simp [hspace])

/-- Reading goes through to the end exactly if there is nothing but digits and white
space. -/
theorem run_fst_iff (reader : Reader) (text : Bytes) :
    (reader.run text).1 = true ↔ IsSpelling text := by
  induction text generalizing reader with
  | nil => simp [run, IsSpelling]
  | cons byte rest ih =>
      rw [IsSpelling, List.forall_mem_cons]
      cases hdigit : digit? byte with
      | some value =>
          rw [run_digit reader hdigit, ih]
          have hmem := mem_alphabet_of_digit? hdigit
          exact (and_iff_right (Or.inl hmem)).symm
      | none =>
          have hother := not_mem_alphabet_of_digit? hdigit
          by_cases hspace : isSpace byte = true
          · rw [run_space reader hdigit hspace, ih]
            exact (and_iff_right (Or.inr ((isSpace_iff byte).mp hspace))).symm
          · rw [run_stop reader hdigit (Bool.eq_false_iff.mpr hspace)]
            have hbyte : ¬ (byte ∈ alphabet ∨ byte ∈ whiteSpace) := by
              rw [← isSpace_iff]
              exact not_or.mpr ⟨hother, hspace⟩
            exact iff_of_false Bool.false_ne_true fun hspelling => hbyte hspelling.1

/-- A text that is read through adds its digits to those of the reader. -/
theorem run_digits (htext : IsSpelling text) (hsound : reader.Sound) :
    (reader.run text).2.Sound ∧ (reader.run text).2.digits = reader.digits ++ digitsOf text := by
  induction text generalizing reader with
  | nil => exact ⟨hsound, by simp [run, digitsOf]⟩
  | cons byte rest ih =>
      obtain ⟨hbyte, hrest⟩ := List.forall_mem_cons.mp htext
      cases hdigit : digit? byte with
      | some value =>
          obtain ⟨hvalue, hlower⟩ := (digit?_alphabet byte).2 value hdigit
          have hpush : (reader.push value).Sound := push_sound hvalue
          obtain ⟨hlater, hdigits⟩ := ih hrest hpush
          rw [run_digit reader hdigit, digitsOf_digit rest (mem_alphabet_of_digit? hdigit)]
          refine ⟨hlater, ?_⟩
          rw [hdigits, digits_push hsound hvalue, hlower, List.append_assoc]
          rfl
      | none =>
          have hother := not_mem_alphabet_of_digit? hdigit
          have hspace := (isSpace_iff byte).mpr (hbyte.resolve_left hother)
          rw [run_space reader hdigit hspace, digitsOf_other rest hother]
          exact ih hrest hsound

end Reader

section Decoding

variable {text : Bytes} (style : Style)

/-- A spelling has its digits as the digits of what it spells. -/
theorem answer_of_spelling (htext : IsSpelling text) :
    ∃ data, answer text style = (true, data) ∧
      encode lower data = digitsOf text ++ padding (digitsOf text).length := by
  obtain ⟨hsound, hdigits⟩ := Reader.run_digits htext Reader.start_sound
  have hthrough := (Reader.run_fst_iff Reader.start text).mpr htext
  have hencode := Reader.encode_finish hsound
  have hstart : Reader.start.digits = [] := rfl
  rcases hrun : Reader.start.run text with ⟨through, reader⟩
  rw [hrun] at hthrough hdigits hencode
  subst hthrough
  refine ⟨reader.finish, ?_, ?_⟩
  · rw [answer, decode, hrun]
  · rw [hencode, hdigits, hstart, List.nil_append]

theorem answer_of_not_spelling (htext : ¬ IsSpelling text) : answer text style = (false, []) := by
  have hstops : ¬ (Reader.start.run text).1 = true :=
    fun hthrough => htext ((Reader.run_fst_iff Reader.start text).mp hthrough)
  rcases hrun : Reader.start.run text with ⟨through, reader⟩
  rw [hrun] at hstops
  cases through with
  | true => exact absurd rfl hstops
  | false => rw [answer, decode, hrun]

theorem answer_fst_iff (text : Bytes) : (answer text style).1 = true ↔ IsSpelling text := by
  by_cases htext : IsSpelling text
  · obtain ⟨data, hanswer, -⟩ := answer_of_spelling style htext
    simp [hanswer, htext]
  · simp [answer_of_not_spelling style htext, htext]

/-- The digits of a spelling say how many bytes it spells. -/
theorem length_of_encode {data : Bytes}
    (hencode : encode lower data = digitsOf text ++ padding (digitsOf text).length) :
    data.length = ((digitsOf text).length + 1) / 2 := by
  have hlength := congrArg List.length hencode
  rw [length_encode, List.length_append, length_padding] at hlength
  omega

/-- Behind an even number of digits, a text spells what it spells alone. -/
theorem answer_append {front back : Bytes} (hfront : IsSpelling front) (hback : IsSpelling back)
    (heven : (digitsOf front).length % 2 = 0) :
    (answer (front ++ back) style).2 = (answer front style).2 ++ (answer back style).2 := by
  obtain ⟨whole, hwhole, hdigits⟩ :=
    answer_of_spelling style (isSpelling_append.mpr ⟨hfront, hback⟩)
  obtain ⟨first, hfirst, hfirstDigits⟩ := answer_of_spelling style hfront
  obtain ⟨second, hsecond, hsecondDigits⟩ := answer_of_spelling style hback
  have hnone : padding (digitsOf front).length = [] := by
    rw [padding, heven]
    rfl
  have hencode : encode lower whole = encode lower (first ++ second) := by
    rw [encode_append, hfirstDigits, hsecondDigits, hdigits, digitsOf_append, List.length_append,
      padding_add heven, hnone, List.append_nil, List.append_assoc]
  rw [hwhole, hfirst, hsecond]
  exact encode_inj.mp hencode

/-- A text spells bytes exactly if it is made of digits and white space.  It spells half
as many bytes as it has digits, rounded up, and these are written with the digits of the
text in their order and a zero behind them if their number is odd; any other text comes
with no bytes.  Behind a text with an even number of digits, another text is accepted
exactly if it is so alone, and it spells the same.  All this is so too of the loop that
reads a text into a buffer, since it accepts the same texts and leaves the same bytes
(`decodeInto_agrees`). -/
theorem decoding_follows_grammar :
    (∀ (style : Style) (text : Bytes),
      let digits := text.filter (· ∈ alphabet)
      ((answer text style).1 = true ↔ ∀ byte ∈ text, byte ∈ alphabet ∨ byte ∈ whiteSpace) ∧
      ((answer text style).1 = true →
        (answer text style).2.length = (digits.length + 1) / 2 ∧
        encode lower (answer text style).2 =
          digits.map toLower ++ if digits.length % 2 = 1 then ['0'.toUInt8] else []) ∧
      ((answer text style).1 = false → (answer text style).2 = [])) ∧
    ∀ (style : Style) (front back : Bytes),
      (answer front style).1 = true → (front.filter (· ∈ alphabet)).length % 2 = 0 →
        (answer (front ++ back) style).1 = (answer back style).1 ∧
        ((answer (front ++ back) style).1 = true →
          (answer (front ++ back) style).2 = (answer front style).2 ++ (answer back style).2) := by
  constructor
  · intro style text digits
    have hcount : (digitsOf text).length = digits.length := length_digitsOf text
    refine ⟨answer_fst_iff style text, ?_, ?_⟩
    · intro haccepted
      obtain ⟨data, hanswer, hencode⟩ :=
        answer_of_spelling style ((answer_fst_iff style text).mp haccepted)
      have hlength := length_of_encode hencode
      rw [hcount] at hencode hlength
      rw [hanswer]
      exact ⟨hlength, hencode⟩
    · intro hrefused
      have hnot : ¬ IsSpelling text := by
        rw [← answer_fst_iff style, hrefused]
        exact Bool.false_ne_true
      rw [answer_of_not_spelling style hnot]
  · intro style front back haccepted heven
    have hfront := (answer_fst_iff style front).mp haccepted
    rw [← length_digitsOf] at heven
    constructor
    · rw [Bool.eq_iff_iff, answer_fst_iff, answer_fst_iff, isSpelling_append]
      exact and_iff_right hfront
    · intro hboth
      have hwhole := (answer_fst_iff style (front ++ back)).mp hboth
      exact answer_append style hfront (isSpelling_append.mp hwhole).2 heven

/-- Two texts that are cut between two bytes, with blanks inside the bytes. -/
theorem divided_text_decoded :
    let front : Bytes := ascii "D\te"
    let back : Bytes := ascii " aD\n7"
    (answer front upper).1 = true ∧ (front.filter (· ∈ alphabet)).length % 2 = 0 ∧
      (answer (front ++ back) upper).1 = true ∧
      (answer (front ++ back) upper).2 = (answer front upper).2 ++ [0xad, 0x70] := by
  intro front back
  have hfront : (answer front upper).1 = true := by decide
  have heven : (front.filter (· ∈ alphabet)).length % 2 = 0 := by decide
  have hback : answer back upper = (true, [0xad, 0x70]) := by decide
  obtain ⟨hboth, hspelled⟩ := decoding_follows_grammar.2 upper front back hfront heven
  rw [hback] at hboth hspelled
  exact ⟨hfront, heven, hboth, hspelled hboth⟩

end Decoding

end TokenMint.Hex
