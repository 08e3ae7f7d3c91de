import Mathlib.Data.List.Induction
import Mathlib.Data.Nat.Digits.Defs
import TokenMint.BigEndian
import TokenMint.Proofs.Words

/-!
# Big-endian values

The bytes of a word are its digits in base 256, most significant digit first.
-/

namespace TokenMint.BigEndian

/-- The number that bytes spell. -/
def value (bytes : Bytes) : Nat :=
  Nat.ofDigits 256 (bytes.reverse.map UInt8.toNat)

theorem value_concat (bytes : Bytes) (byte : UInt8) :
    value (bytes ++ [byte]) = 256 * value bytes + byte.toNat := by
  rw [value, List.reverse_append, List.reverse_singleton, List.singleton_append, List.map_cons,
    Nat.ofDigits_cons, Nat.add_comm]
  rfl

theorem value_append (front back : Bytes) :
    value (front ++ back) = value front * 256 ^ back.length + value back := by
  rw [value, List.reverse_append, List.map_append, Nat.ofDigits_append, List.length_map,
    List.length_reverse, Nat.add_comm, Nat.mul_comm]
  rfl

theorem value_cons (byte : UInt8) (rest : Bytes) :
    value (byte :: rest) = byte.toNat * 256 ^ rest.length + value rest := by
  have hfirst : value [byte] = byte.toNat := by
    simp [value]
  rw [← List.singleton_append, value_append, hfirst]

theorem digit_lt (bytes : Bytes) : ∀ digit ∈ bytes.reverse.map UInt8.toNat, digit < 256 := by
  intro digit hdigit
  obtain ⟨byte, -, rfl⟩ := List.mem_map.mp hdigit
  exact byte.toNat_lt

theorem value_lt (bytes : Bytes) : value bytes < 256 ^ bytes.length := by
  have hlt := Nat.ofDigits_lt_base_pow_length (by decide : 1 < 256) (digit_lt bytes)
  rw [List.length_map, List.length_reverse] at hlt
  exact hlt

/-- Bytes of one length are told apart by the numbers that they spell. -/
theorem value_inj {a b : Bytes} (hlength : a.length = b.length) (hvalue : value a = value b) :
    a = b := by
  have hdigits : (a.reverse.map UInt8.toNat).length = (b.reverse.map UInt8.toNat).length := by
    rw [List.length_map, List.length_map, List.length_reverse, List.length_reverse, hlength]
  have heq := Nat.ofDigits_inj_of_len_eq (by decide) hdigits (digit_lt a) (digit_lt b) hvalue
  have hbytes := (List.map_inj_right fun _ _ => UInt8.toNat_inj.mp).mp heq
  exact List.reverse_inj.mp hbytes

/-- Taking in one more byte multiplies by 256 and adds the byte. -/
theorem toNat_shiftLeft_or (word : UInt64) (byte : UInt8) :
    ((word <<< 8) ||| byte.toUInt64).toNat = (256 * word.toNat + byte.toNat) % 2 ^ 64 := by
  have hbyte : byte.toNat < 2 ^ 8 := byte.toNat_lt
  -- The upper bits of the shifted word are lost before the byte comes in.
  have hshift : (word <<< 8).toNat = 2 ^ 8 * (word.toNat % 2 ^ 56) := by
    rw [UInt64.toNat_shiftLeft, Nat.shiftLeft_eq]
    change word.toNat * 2 ^ 8 % 2 ^ 64 = _
    omega
  rw [UInt64.toNat_or, hshift, UInt8.toNat_toUInt64, ← Nat.two_pow_add_eq_or_of_lt hbyte]
  omega

theorem toNat_foldl (bytes : Bytes) :
    (bytes.foldl (fun (word : UInt64) byte => (word <<< 8) ||| byte.toUInt64) 0).toNat =
      value bytes % 2 ^ 64 := by
  induction bytes using List.reverseRecOn with
  | nil => rfl
  | append_singleton bytes byte ih =>
      rw [List.foldl_append, List.foldl_cons, List.foldl_nil, toNat_shiftLeft_or, ih,
        value_concat]
      omega

theorem toNat_decode64 {bytes : Bytes} (hlength : bytes.length = 8) :
    (decode64 bytes).toNat = value bytes := by
  have hlt := value_lt bytes
  rw [hlength] at hlt
  rw [decode64, List.take_of_length_le (Nat.le_of_eq hlength), toNat_foldl]
  exact Nat.mod_eq_of_lt hlt

/-- Nothing behind the first eight bytes is read. -/
theorem toNat_decode64_take {bytes : Bytes} (hlength : 8 ≤ bytes.length) :
    (decode64 bytes).toNat = value (bytes.take 8) := by
  have htaken : (bytes.take 8).length = 8 := by
    rw [List.length_take, Nat.min_eq_left hlength]
  rw [← toNat_decode64 htaken, decode64, decode64, List.take_take, Nat.min_self]

theorem toNat_decode128 {bytes : Bytes} (hlength : 16 ≤ bytes.length) :
    (decode128 bytes).toNat = value (bytes.take 16) := by
  have hrest : (bytes.drop 8).length = bytes.length - 8 := List.length_drop
  have hhalves : bytes.take 16 = bytes.take 8 ++ (bytes.drop 8).take 8 :=
    List.take_add (i := 8) (j := 8)
  have hlow : ((bytes.drop 8).take 8).length = 8 := by
    rw [List.length_take, hrest]
    omega
  rw [hhalves, value_append, hlow, Word128.toNat, decode128,
    toNat_decode64_take (by omega), toNat_decode64_take (by omega)]
  rfl

theorem value_encode64 (word : UInt64) : value (encode64 word) = word.toNat := by
  have hword := word.toNat_lt
  simp only [encode64, value, List.reverse_cons, List.reverse_nil, List.nil_append,
    List.cons_append, List.map_cons, List.map_nil, Nat.ofDigits_cons, Nat.ofDigits_nil,
    UInt64.toNat_toUInt8, UInt64.toNat_shiftRight, UInt64.reduceToNat, Nat.reduceMod,
    Nat.reducePow, Nat.shiftRight_eq_div_pow]
  omega

theorem value_encode128 (word : Word128) : value (encode128 word) = word.toNat := by
  rw [encode128, value_append, value_encode64, value_encode64, length_encode64]
  rfl

theorem decode128_encode128 (word : Word128) : decode128 (encode128 word) = word := by
  apply Word128.toNat_inj
  rw [toNat_decode128 (by rw [length_encode128]), List.take_of_length_le (by rw [length_encode128]),
    value_encode128]

theorem encode128_decode128 {bytes : Bytes} (hlength : bytes.length = 16) :
    encode128 (decode128 bytes) = bytes := by
  apply value_inj
  · rw [length_encode128, hlength]
  · rw [value_encode128, toNat_decode128 (Nat.le_of_eq hlength.symm),
      List.take_of_length_le (Nat.le_of_eq hlength)]

end TokenMint.BigEndian
