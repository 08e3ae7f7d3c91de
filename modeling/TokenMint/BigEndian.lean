import TokenMint.Bytes
import TokenMint.Word128

/-!
# Big-endian words

A 64-bit word is stored in eight bytes and a 128-bit word in sixteen, most
significant byte first.
-/

namespace TokenMint.BigEndian

/-- The eight bytes of a word. -/
def encode64 (value : UInt64) : Bytes :=
  [(value >>> 56).toUInt8, (value >>> 48).toUInt8, (value >>> 40).toUInt8,
    (value >>> 32).toUInt8, (value >>> 24).toUInt8, (value >>> 16).toUInt8,
    (value >>> 8).toUInt8, value.toUInt8]

/-- The word spelled by the first eight bytes. -/
def decode64 (bytes : Bytes) : UInt64 :=
  (bytes.take 8).foldl (fun value byte => (value <<< 8) ||| byte.toUInt64) 0

/-- The sixteen bytes of a 128-bit word. -/
def encode128 (word : Word128) : Bytes :=
  encode64 word.high ++ encode64 word.low

/-- The 128-bit word spelled by the first sixteen bytes. -/
def decode128 (bytes : Bytes) : Word128 :=
  ⟨decode64 bytes, decode64 (bytes.drop 8)⟩

@[simp]
theorem length_encode64 (value : UInt64) : (encode64 value).length = 8 :=
  rfl

@[simp]
theorem length_encode128 (word : Word128) : (encode128 word).length = 16 :=
  rfl

end TokenMint.BigEndian
