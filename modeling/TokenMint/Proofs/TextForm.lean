import Mathlib.Data.List.Forall2
import TokenMint.Proofs.WireOrder

/-!
# Tokens as text

Every token has one text of 36 characters: lower-case digits, with hyphens at
four fixed places.  Without its hyphens a text is the digits of the token's
bytes, from which the token is read back, so that no two tokens share a text.
-/

namespace TokenMint.Token

/-- The places of a text in groups of these sizes, `true` where a hyphen is. -/
def hyphenPlaces (sizes : List Nat) : List Bool :=
  [true].intercalate (sizes.map fun size => List.replicate (2 * size) false)

/-- A hyphen where one belongs, and a digit anywhere else. -/
def Fits (hyphenated : Bool) (byte : UInt8) : Prop :=
  if hyphenated then byte = '-'.toUInt8 else Hex.IsLowerDigit byte

theorem hyphenPlaces_singleton (size : Nat) :
    hyphenPlaces [size] = List.replicate (2 * size) false :=
  List.intercalate_singleton

theorem hyphenPlaces_cons_cons (size size' : Nat) (rest : List Nat) :
    hyphenPlaces (size :: size' :: rest) =
      List.replicate (2 * size) false ++ ([true] ++ hyphenPlaces (size' :: rest)) := by
  rw [hyphenPlaces, List.map_cons, List.map_cons, List.intercalate_cons_cons, List.append_assoc]
  rfl

/-- Digits fit where no hyphen belongs. -/
theorem digits_fit {digits : Bytes} (hdigits : ∀ byte ∈ digits, Hex.IsLowerDigit byte) :
    List.Forall₂ Fits (List.replicate digits.length false) digits := by
  induction digits with
  | nil => exact .nil
  | cons byte rest ih =>
      have hrest := ih fun byte hbyte => hdigits byte (List.mem_cons_of_mem _ hbyte)
      exact .cons (hdigits byte List.mem_cons_self) hrest

theorem encode_fits {size : Nat} {data : Bytes} (hsize : data.length = size) :
    List.Forall₂ Fits (List.replicate (2 * size) false) (Hex.encode Hex.lower data) := by
  rw [← hsize, ← Hex.length_encode Hex.lower data]
  exact digits_fit fun _ => Hex.mem_encode_isLowerDigit

/-- Each character of a text in groups fits its place. -/
theorem groupDigits_fit {sizes : List Nat} {bytes : Bytes} (hsizes : bytes.length = sizes.sum) :
    List.Forall₂ Fits (hyphenPlaces sizes)
      (['-'.toUInt8].intercalate (groupDigits sizes bytes)) := by
  induction sizes generalizing bytes with
  | nil => exact .nil
  | cons size rest ih =>
      cases rest with
      | nil =>
          rw [hyphenPlaces_singleton, groupDigits, groupDigits, List.intercalate_singleton,
            take_group hsizes]
          exact encode_fits hsizes
      | cons size' rest =>
          have hgroup : (bytes.take size).length = size := by
            rw [List.length_take, hsizes, List.sum_cons, Nat.min_eq_left (Nat.le_add_right _ _)]
          have hhyphen : List.Forall₂ Fits [true] ['-'.toUInt8] := .cons rfl .nil
          have hrest := ih (length_drop_group hsizes)
          rw [hyphenPlaces_cons_cons, intercalate_groupDigits_cons]
          exact List.rel_append (encode_fits hgroup) (List.rel_append hhyphen hrest)

theorem filter_encode (data : Bytes) :
    (Hex.encode Hex.lower data).filter (· != '-'.toUInt8) = Hex.encode Hex.lower data := by
  rw [List.filter_eq_self]
  intro byte hbyte
  rw [bne_iff_ne]
  rintro rfl
  exact absurd (Hex.mem_encode_isLowerDigit hbyte) (by decide)

/-- The digits of the groups are the digits of the bytes. -/
theorem filter_groupDigits {sizes : List Nat} {bytes : Bytes}
    (hsizes : bytes.length = sizes.sum) :
    (['-'.toUInt8].intercalate (groupDigits sizes bytes)).filter (· != '-'.toUInt8) =
      Hex.encode Hex.lower bytes := by
  induction sizes generalizing bytes with
  | nil =>
      have hnil : bytes = [] := List.length_eq_zero_iff.mp hsizes
      subst hnil
      rfl
  | cons size rest ih =>
      cases rest with
      | nil =>
          rw [groupDigits, groupDigits, List.intercalate_singleton, take_group hsizes,
            filter_encode]
      | cons size' rest =>
          have hhyphen : ['-'.toUInt8].filter (· != '-'.toUInt8) = [] := by decide
          rw [intercalate_groupDigits_cons, List.filter_append, List.filter_append, hhyphen,
            List.nil_append, filter_encode, ih (length_drop_group hsizes), ← Hex.encode_append,
            List.take_append_drop]

theorem text_fits (token : Token) : List.Forall₂ Fits (hyphenPlaces groups) token.text :=
  groupDigits_fit (length_toBytes token)

theorem length_text (token : Token) : token.text.length = 36 :=
  token.text_fits.length_eq.symm.trans (by decide)

theorem filter_text (token : Token) :
    token.text.filter (· != '-'.toUInt8) = Hex.encode Hex.lower token.toBytes :=
  filter_groupDigits (length_toBytes token)

/-- A token is read back from the digits of its text. -/
theorem decode_text (token : Token) (reading : Hex.Style) :
    Hex.decode (token.text.filter (· != '-'.toUInt8)) reading = some token.toBytes := by
  rw [filter_text, Hex.decode_encode]

theorem text_inj {a b : Token} : a.text = b.text ↔ a = b := by
  constructor
  · intro heq
    have hbytes : some a.toBytes = some b.toBytes := by
      rw [← decode_text a Hex.lower, ← decode_text b Hex.lower, heq]
    rw [← ofBytes_toBytes a, ← ofBytes_toBytes b, Option.some.inj hbytes]
  · rintro rfl
    rfl

theorem hyphenPlaces_groups :
    ∀ place : Fin (hyphenPlaces groups).length,
      (hyphenPlaces groups).get place = decide (place.val ∈ [8, 13, 18, 23]) := by
  decide

/-- Appending a token adds its text, 36 characters, to what is written.  Hyphens
stand at four places of it and lower-case digits at all others.  Without the
hyphens it is the digits of the token's bytes, from which the token is read
back; so tokens with one text are one token. -/
theorem text_form_is_canonical :
    (∀ (token : Token) (written : Bytes),
      token.appendTo written = written ++ token.text ∧ token.text.length = 36) ∧
    (∀ (token : Token) (place : Fin token.text.length),
      if place.val ∈ [8, 13, 18, 23] then token.text.get place = '-'.toUInt8
      else Hex.IsLowerDigit (token.text.get place)) ∧
    (∀ token : Token,
      let digits := token.text.filter (· != '-'.toUInt8)
      digits = Hex.encode Hex.lower token.toBytes ∧
        ∀ reading : Hex.Style, ∃ bytes, Hex.decode digits reading = some bytes ∧
          ofBuffer (some bytes) bytes.length.toUInt64 = .ok token) ∧
    ∀ a b : Token, a.text = b.text ↔ a = b := by
  refine ⟨?_, ?_, ?_, fun a b => text_inj⟩
  · intro token written
    exact ⟨appendTo_eq token written, length_text token⟩
  · intro token place
    obtain ⟨hlength, hfits⟩ := List.forall₂_iff_get.mp token.text_fits
    have hbound : place.val < (hyphenPlaces groups).length := by
      rw [hlength]
      exact place.isLt
    have hplace := hfits place.val hbound place.isLt
    rw [hyphenPlaces_groups] at hplace
    simpa only [Fits, decide_eq_true_eq] using hplace
  · intro token digits
    refine ⟨filter_text token, fun reading => ⟨token.toBytes, decode_text token reading, ?_⟩⟩
    rw [length_toBytes]
    exact ofBuffer_toBytes token

end TokenMint.Token
