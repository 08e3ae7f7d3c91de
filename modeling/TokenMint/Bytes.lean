/-!
# Byte strings

Text and raw data are both finite lists of bytes.  A literal of the library is
plain ASCII; everything else keeps the bytes its writer chose.
-/

namespace TokenMint

/-- A byte string: text in the encoding of its writer, or raw data. -/
abbrev Bytes := List UInt8

/-- The bytes of an ASCII literal, one per character. -/
def ascii (text : String) : Bytes :=
  text.toList.map Char.toUInt8

namespace Bytes

/-- The part before the first NUL, which is where terminated text ends. -/
def untilNul (bytes : Bytes) : Bytes :=
  bytes.takeWhile (· != 0)

/-- Store `written` at the front of `buffer`.  Nothing is stored past the end
of the buffer, and every byte behind the stored ones keeps its value. -/
def overwrite (buffer written : Bytes) : Bytes :=
  written.take buffer.length ++ buffer.drop written.length

/-- What a buffer of `room` bytes, at least one, holds of a text that is printed into it:
as much as leaves a byte for the NUL at the end. -/
def printed (room : Nat) (text : Bytes) : Bytes :=
  text.take (room - 1) ++ [0]

/-- The text of a truth value in words. -/
def ofBool (value : Bool) : Bytes :=
  if value then ascii "true" else ascii "false"

/-- Put `pad` in front until there are at least `width` bytes. -/
def padLeft (width : Nat) (pad : UInt8) (bytes : Bytes) : Bytes :=
  List.replicate (width - bytes.length) pad ++ bytes

theorem length_overwrite (buffer written : Bytes) :
    (overwrite buffer written).length = buffer.length := by
  simp only [overwrite, List.length_append, List.length_take, List.length_drop]
  omega

theorem overwrite_of_le {buffer written : Bytes}
    (hfits : written.length ≤ buffer.length) :
    overwrite buffer written = written ++ buffer.drop written.length := by
  rw [overwrite, List.take_of_length_le hfits]

theorem length_padLeft (width : Nat) (pad : UInt8) (bytes : Bytes) :
    (padLeft width pad bytes).length = max width bytes.length := by
  simp only [padLeft, List.length_append, List.length_replicate]
  omega

theorem printed_of_lt {room : Nat} {text : Bytes} (hroom : text.length < room) :
    printed room text = text ++ [0] := by
  rw [printed, List.take_of_length_le (by omega)]

theorem untilNul_of_notMem {bytes : Bytes} (hnul : 0 ∉ bytes) : untilNul bytes = bytes := by
  induction bytes with
  | nil => rfl
  | cons byte rest ih =>
      simp only [List.mem_cons, not_or] at hnul
      have hrest : List.takeWhile (fun b => b != 0) rest = rest := ih hnul.2
      simp [untilNul, Ne.symm hnul.1, hrest]

theorem untilNul_append_zero {bytes : Bytes} (hnul : 0 ∉ bytes) :
    untilNul (bytes ++ [0]) = bytes := by
  rw [untilNul, List.takeWhile_append, ← untilNul, untilNul_of_notMem hnul]
  simp

end Bytes

end TokenMint
