import TokenMint.Hex.Buffer
import TokenMint.Proofs.Effects
import TokenMint.Proofs.HexGrammar

/-!
# Stores of the hexadecimal loops

Both loops store their bytes one behind the other, from the first index of the buffer on.
The encoder stores two for each byte.  The decoder has stored one for every two digits that
it has seen, keeps at most one digit in its slots, and adds a last byte for it at the end.
So the room that is asked for is enough at every step, and what is behind the stored bytes
stays as it was, even if the text turns out to spell nothing.
-/

namespace TokenMint.Hex

theorem checkRoom_of_le {claimed needed : UInt64} (hroom : needed ≤ claimed) (line : Nat)
    (required : Bytes) (log : Log) :
    checkRoom line required claimed needed log = (.ok (), log) := by
  rw [checkRoom, decide_eq_true hroom]
  rfl

theorem toNat_encodedLength {length : Nat} (hfits : 2 * length < UInt64.size) :
    (encodedLength length.toUInt64).toNat = 2 * length := by
  have hsize : UInt64.size = 2 ^ 64 := rfl
  have hword : length.toUInt64.toNat = length % 2 ^ 64 := rfl
  rw [encodedLength, UInt64.toNat_mul, hword]
  change length % 2 ^ 64 * 2 % 2 ^ 64 = _
  omega

theorem toNat_decodedLength {length : Nat} (hfits : length + 1 < UInt64.size) :
    (decodedLength length.toUInt64).toNat = (length + 1) / 2 := by
  have hsize : UInt64.size = 2 ^ 64 := rfl
  have hword : length.toUInt64.toNat = length % 2 ^ 64 := rfl
  rw [decodedLength, UInt64.toNat_div, UInt64.toNat_add, hword]
  change (length % 2 ^ 64 + 1) % 2 ^ 64 / 2 = _
  omega

section Writing

theorem storeAll_append (buffer : Bytes) (front back : List Store) :
    storeAll buffer (front ++ back) = storeAll (storeAll buffer front) back :=
  List.foldl_append

/-- A writer has stored these bytes from the first index on, and nothing else. -/
structure Writer.Holds (writer : Writer) (data : Bytes) : Prop where
  next : writer.next.toNat = data.length
  indices : writer.stores.map Store.index = List.range data.length
  stored : ∀ buffer : Bytes, data.length ≤ buffer.length →
    storeAll buffer writer.stores = data ++ buffer.drop data.length

namespace Writer

variable {writer : Writer} {data : Bytes}

theorem start_holds : start.Holds [] :=
  ⟨rfl, rfl, fun _ _ => rfl⟩

theorem Holds.write (hholds : writer.Holds data) (hroom : data.length + 1 < UInt64.size)
    (byte : UInt8) : (writer.write byte).Holds (data ++ [byte]) := by
  have hlength : (data ++ [byte]).length = data.length + 1 := List.length_append
  refine ⟨?_, ?_, ?_⟩
  · rw [Writer.write, UInt64.toNat_add, hholds.next, hlength]
    exact Nat.mod_eq_of_lt hroom
  · rw [Writer.write, List.map_append, hholds.indices, hlength, List.range_succ]
    exact congrArg (List.range data.length ++ [·]) hholds.next
  · intro buffer hfits
    rw [hlength] at hfits ⊢
    have hlast : storeAll (data ++ buffer.drop data.length) [⟨writer.next.toNat, byte⟩] =
        (data ++ buffer.drop data.length).set writer.next.toNat byte := rfl
    rw [Writer.write, storeAll_append, hholds.stored buffer (by omega), hlast, hholds.next,
      List.set_append_right _ _ (Nat.le_refl _), Nat.sub_self,
      List.drop_eq_getElem_cons (by omega), List.set_cons_zero, List.append_assoc]
    rfl

theorem Holds.writeDigits (hholds : writer.Holds data) (style : Style)
    (hroom : data.length + 2 < UInt64.size) (byte : UInt8) :
    (writer.writeDigits style byte).Holds (data ++ encodeByte style byte) := by
  have hhigh := hholds.write (Nat.lt_of_succ_lt hroom) (digit style (byte >>> 4))
  have hlength : (data ++ [digit style (byte >>> 4)]).length + 1 = data.length + 2 :=
    congrArg (· + 1) List.length_append
  have hboth := hhigh.write (hlength ▸ hroom) (digit style (byte &&& 15))
  rw [List.append_assoc] at hboth
  exact hboth

/-- The encoder stores two digits for each byte. -/
theorem Holds.encode (hholds : writer.Holds data) (style : Style) {source : Bytes}
    (hroom : data.length + 2 * source.length < UInt64.size) :
    (writer.encode style source).Holds (data ++ Hex.encode style source) := by
  induction source generalizing writer data with
  | nil =>
      rw [Hex.encode, List.flatMap_nil, List.append_nil]
      exact hholds
  | cons byte rest ih =>
      rw [List.length_cons] at hroom
      have hlength : (data ++ encodeByte style byte).length = data.length + 2 :=
        List.length_append
      have hrest := ih (hholds.writeDigits style (by omega) byte) (by omega)
      rw [List.append_assoc] at hrest
      exact hrest

theorem Holds.length_stores (hholds : writer.Holds data) : writer.stores.length = data.length := by
  rw [← List.length_map Store.index, hholds.indices, List.length_range]

/-- Behind what is held, a buffer stays as it was. -/
theorem Holds.drop_storeAll (hholds : writer.Holds data) {buffer : Bytes}
    (hfits : data.length ≤ buffer.length) :
    (storeAll buffer writer.stores).drop writer.stores.length =
      buffer.drop writer.stores.length := by
  rw [hholds.stored buffer hfits, hholds.length_stores, List.drop_left]

end Writer

end Writing

namespace Reader

theorem length_digits (reader : Reader) :
    reader.digits.length = 2 * reader.done.length + reader.pending.toList.length := by
  rw [digits, List.length_append, length_encode]
  cases reader.pending with
  | none => rfl
  | some high => rfl

theorem length_pending_le (reader : Reader) : reader.pending.toList.length ≤ 1 := by
  cases reader.pending with
  | none => exact Nat.zero_le 1
  | some high => exact Nat.le_refl 1

theorem length_finish (reader : Reader) :
    reader.finish.length = reader.done.length + reader.pending.toList.length := by
  obtain ⟨done, pending⟩ := reader
  cases pending with
  | none => rfl
  | some high => exact List.length_append

end Reader

namespace Decoder

/-- A decoder is where a reader is: it has stored the complete bytes, and its first slot holds
the digit that is pending, if one is. -/
structure Follows (decoder : Decoder) (reader : Reader) : Prop where
  out : decoder.out.Holds reader.done
  slots : ∃ first second, decoder.slots = [first, second] ∧
    (decoder.taken = 0 ∧ reader.pending = none ∨ decoder.taken = 1 ∧ reader.pending = some first)

section Scanning

variable {decoder : Decoder} {reader : Reader}

theorem start_follows : start.Follows Reader.start :=
  ⟨Writer.start_holds, 0, 0, rfl, Or.inl ⟨rfl, rfl⟩⟩

theorem Follows.push (hfollows : decoder.Follows reader)
    (hroom : reader.done.length + 1 < UInt64.size) (value : UInt8) :
    (decoder.push value).Follows (reader.push value) := by
  obtain ⟨slots, taken, out⟩ := decoder
  obtain ⟨done, pending⟩ := reader
  obtain ⟨hout, first, second, hslots, ⟨htaken, hpending⟩ | ⟨htaken, hpending⟩⟩ := hfollows
  · cases hslots
    cases htaken
    cases hpending
    exact ⟨hout, value, second, rfl, Or.inr ⟨rfl, rfl⟩⟩
  · cases hslots
    cases htaken
    cases hpending
    exact ⟨hout.write hroom _, first, value, rfl, Or.inl ⟨rfl, rfl⟩⟩

theorem Follows.finish (hfollows : decoder.Follows reader)
    (hroom : reader.done.length + 1 < UInt64.size) : decoder.finish.Holds reader.finish := by
  obtain ⟨slots, taken, out⟩ := decoder
  obtain ⟨done, pending⟩ := reader
  obtain ⟨hout, first, second, hslots, ⟨htaken, hpending⟩ | ⟨htaken, hpending⟩⟩ := hfollows
  · cases htaken
    cases hpending
    exact hout
  · cases hslots
    cases htaken
    cases hpending
    exact hout.write hroom _

/-- A decoder goes through a text as a reader does. -/
theorem Follows.scan (hfollows : decoder.Follows reader) {text : Bytes}
    (hroom : reader.done.length + text.length < UInt64.size) :
    (decoder.scan text).1 = (reader.run text).1 ∧
      (decoder.scan text).2.Follows (reader.run text).2 := by
  induction text generalizing decoder reader with
  | nil => exact ⟨rfl, hfollows⟩
  | cons byte rest ih =>
      rw [List.length_cons] at hroom
      rw [Decoder.scan, Reader.run]
      cases digit? byte with
      | some value =>
          refine ih (hfollows.push (by omega) value) ?_
          have hlonger : (reader.push value).done.length ≤ reader.done.length + 1 := by
            rw [Reader.push]
            split
            · exact Nat.le_succ _
            · exact Nat.le_of_eq List.length_append
          omega
      | none =>
          by_cases hspace : isSpace byte = true
          · simp only [hspace, if_true]
            exact ih hfollows (by omega)
          · simp only [hspace]
            exact ⟨rfl, hfollows⟩

theorem start_scan {text : Bytes} (hroom : text.length < UInt64.size) :
    (start.scan text).1 = (Reader.start.run text).1 ∧
      (start.scan text).2.Follows (Reader.start.run text).2 :=
  start_follows.scan (by rwa [Reader.start, List.length_nil, Nat.zero_add])

/-- A scan stops at some byte, and keeps the decoder that it came there with. -/
theorem exists_of_scan_false {text : Bytes} (hstop : (decoder.scan text).1 = false) :
    ∃ front byte back, text = front ++ byte :: back ∧
      decoder.scan front = (true, (decoder.scan text).2) := by
  induction text generalizing decoder with
  | nil => cases hstop
  | cons byte rest ih =>
      rw [Decoder.scan] at hstop ⊢
      cases hdigit : digit? byte with
      | some value =>
          simp only [hdigit] at hstop ⊢
          obtain ⟨front, last, back, hrest, hfront⟩ := ih hstop
          refine ⟨byte :: front, last, back, congrArg (byte :: ·) hrest, ?_⟩
          rw [Decoder.scan, hdigit]
          exact hfront
      | none =>
          simp only [hdigit] at hstop ⊢
          by_cases hspace : isSpace byte = true
          · simp only [hspace, if_true] at hstop ⊢
            obtain ⟨front, last, back, hrest, hfront⟩ := ih hstop
            refine ⟨byte :: front, last, back, congrArg (byte :: ·) hrest, ?_⟩
            rw [Decoder.scan, hdigit]
            exact (if_pos hspace).trans hfront
          · exact ⟨[], byte, rest, rfl, by simp [Decoder.scan, hspace]⟩

end Scanning

/-- Where a decoder is that has seen so many digits.  It has stored a byte for each two of
them, the last one waits in a slot if their number is odd, and at the end this makes one more
byte. -/
structure After (seen : Nat) (decoder : Decoder) : Prop where
  slots : decoder.slots.length = 2
  taken : decoder.taken.toNat = seen % 2
  complete : decoder.out.stores.map Store.index = List.range (seen / 2)
  final : decoder.finish.stores.map Store.index = List.range ((seen + 1) / 2)

section Passing

variable {decoder : Decoder} {text : Bytes}

theorem Follows.taken_eq {reader : Reader} (hfollows : decoder.Follows reader) :
    decoder.taken.toNat = reader.pending.toList.length := by
  obtain ⟨-, first, second, -, ⟨htaken, hpending⟩ | ⟨htaken, hpending⟩⟩ := hfollows
  · rw [htaken, hpending]
    rfl
  · rw [htaken, hpending]
    rfl

/-- A decoder that has passed a text is where the reader is that has read it. -/
theorem exists_reader (hscan : start.scan text = (true, decoder))
    (hroom : text.length < UInt64.size) :
    ∃ reader, Reader.start.run text = (true, reader) ∧ decoder.Follows reader ∧
      reader.done.length = (text.filter (· ∈ alphabet)).length / 2 ∧
      reader.pending.toList.length = (text.filter (· ∈ alphabet)).length % 2 := by
  obtain ⟨hthrough, hfollows⟩ := start_scan hroom
  rw [hscan] at hthrough hfollows
  have htext := (Reader.run_fst_iff Reader.start text).mp hthrough.symm
  obtain ⟨-, hdigits⟩ := Reader.run_digits htext Reader.start_sound
  have hcount := congrArg List.length hdigits
  have hstart : Reader.start.digits = [] := rfl
  rw [hstart, List.nil_append, length_digitsOf, Reader.length_digits] at hcount
  have hsingle := Reader.length_pending_le (Reader.start.run text).2
  refine ⟨(Reader.start.run text).2, Prod.ext hthrough.symm rfl, hfollows, ?_, ?_⟩
  · omega
  · omega

theorem after_of_scan (hscan : start.scan text = (true, decoder))
    (hroom : text.length + 1 < UInt64.size) :
    decoder.After (text.filter (· ∈ alphabet)).length := by
  obtain ⟨reader, -, hfollows, hdone, hpending⟩ := exists_reader hscan (by omega)
  have hseen : (text.filter (· ∈ alphabet)).length ≤ text.length := List.length_filter_le _ _
  have hfinal := (hfollows.finish (by omega)).indices
  rw [Reader.length_finish, hdone, hpending] at hfinal
  refine ⟨?_, ?_, ?_, ?_⟩
  · obtain ⟨first, second, hslots, -⟩ := hfollows.slots
    rw [hslots]
    rfl
  · rw [hfollows.taken_eq, hpending]
  · rw [hfollows.out.indices, hdone]
  · rw [hfinal]
    exact congrArg List.range (by omega)

/-- The digits of a text, in pairs, fit the room that is asked for. -/
theorem pairs_le_decodedLength {front back : Bytes} (htext : text = front ++ back)
    (hfits : text.length + 1 < UInt64.size) :
    ((front.filter (· ∈ alphabet)).length + 1) / 2 ≤
      (decodedLength text.length.toUInt64).toNat := by
  have hseen : (front.filter (· ∈ alphabet)).length ≤ front.length := List.length_filter_le _ _
  have hlength : text.length = front.length + back.length := by
    rw [htext, List.length_append]
  rw [toNat_decodedLength hfits]
  omega

/-- A decoder that passes its text holds what the text spells. -/
theorem finish_holds (hscan : start.scan text = (true, decoder))
    (hfits : text.length + 1 < UInt64.size) :
    ∃ data, decode text = some data ∧ decoder.finish.Holds data ∧
      data.length ≤ (decodedLength text.length.toUInt64).toNat := by
  obtain ⟨reader, hrun, hfollows, hdone, hpending⟩ := exists_reader hscan (by omega)
  have hpairs := pairs_le_decodedLength (List.append_nil text).symm hfits
  have hseen : (text.filter (· ∈ alphabet)).length ≤ text.length := List.length_filter_le _ _
  refine ⟨reader.finish, ?_, hfollows.finish (by omega), ?_⟩
  · rw [decode, hrun]
  · rw [Reader.length_finish]
    omega

/-- A decoder that passes its text has stored what the text spells, and nothing behind. -/
theorem passed_inside (hscan : start.scan text = (true, decoder))
    (hfits : text.length + 1 < UInt64.size) {buffer : Bytes}
    (hroom : (decodedLength text.length.toUInt64).toNat ≤ buffer.length) :
    decoder.finish.next.toNat = decoder.finish.stores.length ∧
      decode text = some ((storeAll buffer decoder.finish.stores).take
        decoder.finish.stores.length) ∧
      (storeAll buffer decoder.finish.stores).drop decoder.finish.stores.length =
        buffer.drop decoder.finish.stores.length := by
  obtain ⟨data, hdecode, hholds, hlength⟩ := finish_holds hscan hfits
  have hinside : data.length ≤ buffer.length := Nat.le_trans hlength hroom
  refine ⟨?_, ?_, hholds.drop_storeAll hinside⟩
  · rw [hholds.next, hholds.length_stores]
  · rw [hholds.stored buffer hinside, hholds.length_stores, List.take_left, hdecode]

theorem decode_of_stopped (hscan : start.scan text = (false, decoder))
    (hfits : text.length < UInt64.size) : decode text = none := by
  have hthrough := (start_scan hfits).1
  rcases hrun : Reader.start.run text with ⟨through, last⟩
  rw [hscan, hrun] at hthrough
  cases hthrough
  rw [decode, hrun]

/-- A decoder that stops has passed a part of its text, and stored nothing behind. -/
theorem stopped_inside (hscan : start.scan text = (false, decoder))
    (hfits : text.length + 1 < UInt64.size) {buffer : Bytes}
    (hroom : (decodedLength text.length.toUInt64).toNat ≤ buffer.length) :
    (∃ front byte back, text = front ++ byte :: back ∧ start.scan front = (true, decoder)) ∧
      decode text = none ∧
      (storeAll buffer decoder.out.stores).drop decoder.out.stores.length =
        buffer.drop decoder.out.stores.length := by
  obtain ⟨front, byte, back, htext, hfront⟩ :=
    exists_of_scan_false (congrArg Prod.fst hscan : (start.scan text).1 = false)
  rw [hscan] at hfront
  have hlength : text.length = front.length + (byte :: back).length := by
    rw [htext, List.length_append]
  obtain ⟨reader, -, hfollows, hdone, -⟩ := exists_reader hfront (by omega)
  have hpairs := pairs_le_decodedLength htext hfits
  exact ⟨⟨front, byte, back, htext, hfront⟩, decode_of_stopped hscan (Nat.lt_of_succ_lt hfits),
    hfollows.out.drop_storeAll (by omega)⟩

end Passing

end Decoder

section Buffers

variable {buffer : Bytes} {claimed : UInt64} (log : Log)

theorem encodeInto_eq (style : Style) {data : Bytes}
    (hclaim : encodedLength data.length.toUInt64 ≤ claimed) :
    encodeInto style buffer claimed data log =
      (.ok ((Writer.start.encode style data).next,
        storeAll buffer (Writer.start.encode style data).stores), log) :=
  Effect.confined_of_ok (Effect.bind_of_ok (checkRoom_of_le hclaim _ _ log))

theorem encode_holds (style : Style) {data : Bytes} (hfits : 2 * data.length < UInt64.size) :
    (Writer.start.encode style data).Holds (encode style data) :=
  Writer.start_holds.encode style (by rw [List.length_nil]; omega)

/-- Appending in place gives what is written behind, and no more. -/
theorem appendInPlace_eq (style : Style) (written : Bytes) {data : Bytes}
    (hfits : 2 * data.length < UInt64.size) :
    appendInPlace style written data log = (.ok (encodeAppend style written data), log) := by
  have hroom := toNat_encodedLength hfits
  have hholds := encode_holds style hfits
  have hdigits := length_encode style data
  have hblank : (List.replicate (2 * data.length) (0 : UInt8)).length = 2 * data.length :=
    List.length_replicate
  have hstored := hholds.stored (List.replicate (2 * data.length) 0) (by omega)
  have hclaim : encodedLength data.length.toUInt64 ≤ (2 * data.length).toUInt64 := by
    rw [UInt64.le_iff_toNat_le, hroom]
    exact Nat.le_of_eq (Nat.mod_eq_of_lt hfits).symm
  rw [hdigits, List.drop_eq_nil_of_le (by omega), List.append_nil] at hstored
  rw [appendInPlace, hroom, List.drop_left, List.take_left, hblank,
    Effect.bind_of_ok (encodeInto_eq log style hclaim)]
  dsimp only
  rw [hstored, hholds.next, ← List.length_append, List.take_length, encodeAppend]
  rfl

theorem decodeInto_of_passed {text : Bytes} {decoder : Decoder}
    (hclaim : decodedLength text.length.toUInt64 ≤ claimed)
    (hscan : Decoder.start.scan text = (true, decoder)) :
    decodeInto buffer claimed text log =
      (.ok (some decoder.finish.next, storeAll buffer decoder.finish.stores), log) := by
  refine Effect.confined_of_ok ((Effect.bind_of_ok (checkRoom_of_le hclaim _ _ log)).trans ?_)
  rw [hscan]
  rfl

theorem decodeInto_of_stopped {text : Bytes} {decoder : Decoder}
    (hclaim : decodedLength text.length.toUInt64 ≤ claimed)
    (hscan : Decoder.start.scan text = (false, decoder)) :
    decodeInto buffer claimed text log =
      (.ok (none, storeAll buffer decoder.out.stores), log) := by
  refine Effect.confined_of_ok ((Effect.bind_of_ok (checkRoom_of_le hclaim _ _ log)).trans ?_)
  rw [hscan]
  rfl

/-- The loop over a buffer and the reader of a whole text agree.  The loop answers how many
bytes the text spells, and leaves them in front of what the buffer held behind; it refuses
exactly the texts that spell none. -/
theorem decodeInto_agrees {text : Bytes} (hfits : text.length + 1 < UInt64.size)
    (hclaim : decodedLength text.length.toUInt64 ≤ claimed) (hbuffer : claimed.toNat ≤ buffer.length) :
    ∃ filled,
      decodeInto buffer claimed text log =
          (.ok ((decode text).map fun data => data.length.toUInt64, filled), log) ∧
        ∀ data, decode text = some data → filled = data ++ buffer.drop data.length := by
  rcases hscan : Decoder.start.scan text with ⟨through, decoder⟩
  cases through with
  | true =>
      obtain ⟨data, hdecode, hholds, hlength⟩ := Decoder.finish_holds hscan hfits
      have hroom := UInt64.le_iff_toNat_le.mp hclaim
      have hcount : decoder.finish.next = data.length.toUInt64 := by
        rw [← hholds.next]
        exact UInt64.ofNat_toNat.symm
      refine ⟨storeAll buffer decoder.finish.stores, ?_, ?_⟩
      · rw [decodeInto_of_passed log hclaim hscan, hdecode, hcount]
        rfl
      · intro other hother
        cases hdecode.symm.trans hother
        exact hholds.stored buffer (by omega)
  | false =>
      have hnone := Decoder.decode_of_stopped hscan (Nat.lt_of_succ_lt hfits)
      refine ⟨storeAll buffer decoder.out.stores, ?_, ?_⟩
      · rw [decodeInto_of_stopped log hclaim hscan, hnone]
        rfl
      · intro data hdata
        cases hnone.symm.trans hdata

/-- The hexadecimal loops stay inside their buffers.  The encoder stores at each index below
twice the length of its data, once and in order, and answers with this number.  Appending in
place leaves what was written in front.  At every step of every text the decoder keeps to its
two slots, and has stored at the indices below half the number of digits that it has seen; a
last byte for a digit that stands alone still goes below this half, rounded up, which the room
that is asked for allows.  A decoder that passes its text answers with how many bytes it has
stored, which are those that the text spells.  What is behind the stored bytes is as it was,
also for a decoder that stops. -/
theorem hex_loops_stay_inside :
    (∀ (style : Style) (buffer data : Bytes) (claimed : UInt64) (log : Log),
      2 * data.length < UInt64.size → encodedLength data.length.toUInt64 ≤ claimed →
      claimed.toNat ≤ buffer.length →
        let out := Writer.start.encode style data
        encodeInto style buffer claimed data log =
            (.ok (out.next, storeAll buffer out.stores), log) ∧
          out.stores.map Store.index = List.range (2 * data.length) ∧
          out.next.toNat = 2 * data.length ∧
          storeAll buffer out.stores = encode style data ++ buffer.drop (2 * data.length)) ∧
    (∀ (style : Style) (written data : Bytes) (log : Log), 2 * data.length < UInt64.size →
      ∃ after, appendInPlace style written data log = (.ok after, log) ∧
        after = encodeAppend style written data ∧ written <+: after) ∧
    ∀ (buffer text : Bytes) (claimed : UInt64) (log : Log), text.length + 1 < UInt64.size →
      decodedLength text.length.toUInt64 ≤ claimed → claimed.toNat ≤ buffer.length →
        (∀ front back decoder, text = front ++ back →
          Decoder.start.scan front = (true, decoder) →
            decoder.After (front.filter (· ∈ alphabet)).length ∧
              ((front.filter (· ∈ alphabet)).length + 1) / 2 ≤
                (decodedLength text.length.toUInt64).toNat) ∧
        ((∃ decoder, Decoder.start.scan text = (true, decoder) ∧
          decodeInto buffer claimed text log =
            (.ok (some decoder.finish.next, storeAll buffer decoder.finish.stores), log) ∧
          decoder.finish.next.toNat = decoder.finish.stores.length ∧
          decode text = some ((storeAll buffer decoder.finish.stores).take
            decoder.finish.stores.length) ∧
          (storeAll buffer decoder.finish.stores).drop decoder.finish.stores.length =
            buffer.drop decoder.finish.stores.length) ∨
        ∃ decoder, Decoder.start.scan text = (false, decoder) ∧
          decodeInto buffer claimed text log =
            (.ok (none, storeAll buffer decoder.out.stores), log) ∧
          (∃ front byte back, text = front ++ byte :: back ∧
            Decoder.start.scan front = (true, decoder)) ∧
          decode text = none ∧
          (storeAll buffer decoder.out.stores).drop decoder.out.stores.length =
            buffer.drop decoder.out.stores.length) := by
  refine ⟨?_, ?_, ?_⟩
  · intro style buffer data claimed log hfits hclaim hbuffer out
    have hholds := encode_holds style hfits
    have hdigits := length_encode style data
    have hroom := UInt64.le_iff_toNat_le.mp hclaim
    rw [toNat_encodedLength hfits] at hroom
    rw [← hdigits]
    exact ⟨encodeInto_eq log style hclaim, hholds.indices, hholds.next,
      hholds.stored buffer (by omega)⟩
  · intro style written data log hfits
    exact ⟨_, appendInPlace_eq log style written hfits, rfl, List.prefix_append _ _⟩
  · intro buffer text claimed log hfits hclaim hbuffer
    have hroom := UInt64.le_iff_toNat_le.mp hclaim
    constructor
    · intro front back decoder htext hscan
      have hlength : text.length = front.length + back.length := by
        rw [htext, List.length_append]
      exact ⟨Decoder.after_of_scan hscan (by omega), Decoder.pairs_le_decodedLength htext hfits⟩
    · rcases hscan : Decoder.start.scan text with ⟨through, decoder⟩
      cases through with
      | true =>
          exact Or.inl ⟨decoder, rfl, decodeInto_of_passed log hclaim hscan,
            Decoder.passed_inside hscan hfits (Nat.le_trans hroom hbuffer)⟩
      | false =>
          exact Or.inr ⟨decoder, rfl, decodeInto_of_stopped log hclaim hscan,
            Decoder.stopped_inside hscan hfits (Nat.le_trans hroom hbuffer)⟩

/-- A text with an odd number of digits fills its room to the last byte.  One that stops inside
its second byte leaves only the first. -/
theorem odd_and_broken_texts_inside :
    let buffer : Bytes := ascii "....."
    let log : Log := Log.fresh ⟨0, 0, 0⟩
    encodeInto lower buffer 4 [0xde, 0xad] log = (.ok (4, ascii "dead."), log) ∧
      appendInPlace upper (ascii "0x") [0xde] log = (.ok (ascii "0xDE"), log) ∧
      decodeInto buffer 2 (ascii "5A7") log = (.ok (some 2, ascii "Zp..."), log) ∧
      decodeInto buffer 2 (ascii "5A7!") log = (.ok (none, ascii "Z...."), log) := by
  intro buffer log
  obtain ⟨hencode, happend, hdecode⟩ := hex_loops_stay_inside
  obtain ⟨hencoded, -⟩ := hencode lower buffer [0xde, 0xad] 4 log (by decide) (by decide)
    (by decide)
  obtain ⟨_, happended, rfl, -⟩ := happend upper (ascii "0x") [0xde] log (by decide)
  obtain ⟨-, hodd⟩ := hdecode buffer (ascii "5A7") 2 log (by decide) (by decide) (by decide)
  obtain ⟨-, hbroken⟩ := hdecode buffer (ascii "5A7!") 2 log (by decide) (by decide) (by decide)
  refine ⟨hencoded, happended, ?_, ?_⟩
  · obtain ⟨decoder, hscan, hdecoded, -⟩ | ⟨decoder, hscan, -⟩ := hodd
    · cases hscan
      exact hdecoded
    · cases hscan
  · obtain ⟨decoder, hscan, -⟩ | ⟨decoder, hscan, hdecoded, -⟩ := hbroken
    · cases hscan
    · cases hscan
      exact hdecoded

end Buffers

end TokenMint.Hex
