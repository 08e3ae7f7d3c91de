import Mathlib.Data.Nat.Digits.Lemmas
import TokenMint.Log.Entry
import TokenMint.Proofs.Calendar
import TokenMint.Proofs.Decimal

/-!
# Lines of the log

The header of a line is made of fields of fixed width with marks between them, as long as
none of its numbers outgrows its field.  Date and time of day never do, for the calendar
bounds them, and neither do the microseconds of a second.  So the header fills its buffer
exactly, and letter, date, time of day and microseconds are read back from it; behind it
the line has the thread, the place and the message, each of them whole.
-/

namespace TokenMint

namespace Decimal

/-- A field of a fixed width: so many figures, which spell a number. -/
structure IsField (width number : Nat) (text : Bytes) : Prop where
  length_eq : text.length = width
  figures : ∀ byte ∈ text, IsFigure byte
  spelled_eq : spelled text = number

/-- An integer as it is written: behind a minus sign if it is negative, the numeral of its
magnitude. -/
def IsInteger (number : Int) (text : Bytes) : Prop :=
  ∃ numeral, text = (if number < 0 then ['-'.toUInt8] else []) ++ numeral ∧
    IsNumeral numeral ∧ spelled numeral = number.natAbs

section Fields

variable {width number : Nat} {text : Bytes}

theorem IsField.zero_notMem (hfield : IsField width number text) : 0 ∉ text :=
  zero_notMem_of_figures hfield.figures

/-- Zeros in front add nothing. -/
theorem spelled_zeros_append (count : Nat) (text : Bytes) :
    spelled (List.replicate count '0'.toUInt8 ++ text) = spelled text := by
  have hzero : figureValue '0'.toUInt8 = 0 := by decide
  rw [spelled, List.reverse_append, List.reverse_replicate, List.map_append, List.map_replicate,
    hzero, Nat.ofDigits_append_replicate_zero]
  rfl

/-- A numeral has no more figures than the number has digits. -/
theorem IsNumeral.length_le (htext : IsNumeral text) (hpos : 0 < width)
    (hfits : spelled text < 10 ^ width) : text.length ≤ width := by
  by_cases hzero : spelled text = 0
  · rw [htext.spelled_eq_zero_iff.mp hzero]
    exact hpos
  · have hlead := mt htext.lead (mt htext.spelled_eq_zero_iff.mpr hzero)
    have hdigits := digits_spelled htext.figures hlead
    have hlength := (Nat.digits_length_le_iff (by decide) _).mpr hfits
    rw [hdigits, List.length_map, List.length_reverse] at hlength
    exact hlength

/-- A numeral that fits into a field fills it with zeros in front. -/
theorem IsNumeral.isField_padLeft (htext : IsNumeral text) (hpos : 0 < width)
    (hfits : spelled text < 10 ^ width) :
    IsField width (spelled text) (text.padLeft width '0'.toUInt8) := by
  refine ⟨?_, ?_, spelled_zeros_append _ text⟩
  · rw [Bytes.length_padLeft]
    exact Nat.max_eq_left (htext.length_le hpos hfits)
  · intro byte hbyte
    rcases List.mem_append.mp hbyte with hpad | htextByte
    · rw [List.eq_of_mem_replicate hpad]
      decide
    · exact htext.figures byte htextByte

/-- A number with no more digits than its field has figures fills the field. -/
theorem isField_ofUInt64 {word : UInt64} (hword : word.toNat = number) (hpos : 0 < width)
    (hfits : number < 10 ^ width) :
    IsField width number ((ofUInt64 word).padLeft width '0'.toUInt8) := by
  obtain ⟨-, hnumeral, hspelled, -⟩ := ofUInt64_spec word
  rw [← hword, ← hspelled] at hfits ⊢
  exact hnumeral.isField_padLeft hpos hfits

end Fields

/-- An integer of 64 bits is written as it is. -/
theorem isInteger_ofInt64 {number : Int} (hleast : -2 ^ 63 ≤ number) (hgreatest : number < 2 ^ 63) :
    IsInteger number (ofInt64 number.toInt64) := by
  obtain ⟨numeral, hrender, hnumeral, hspelled⟩ := ofInt64_spec number.toInt64
  have hvalue : number.toInt64.toInt = number := Int64.toInt_ofInt_of_le hleast hgreatest
  have hsign : number.toInt64 < 0 ↔ number < 0 := by
    rw [Int64.lt_iff_toInt_lt, hvalue]
    rfl
  rw [hvalue] at hspelled
  refine ⟨numeral, ?_, hnumeral, hspelled⟩
  simp only [hrender, sign, hsign]

end Decimal

/-- The name of a file has no NUL in it, so it is shown whole; a word stands for a file that
is unknown. -/
theorem Piece.render_terminated {file : Option Bytes}
    (hfile : ∀ name, file = some name → 0 ∉ name) :
    (Piece.terminated file).render = file.getD (ascii "(null)") := by
  cases file with
  | none => rfl
  | some name => exact Bytes.untilNul_of_notMem (hfile name rfl)

namespace Log

open Decimal (IsField IsInteger IsNumeral)

/-- What the header of a line tells. -/
structure Heading where
  letter : UInt8
  date : Calendar
  micros : Nat
deriving DecidableEq, Repr

namespace Heading

/-- Read so many figures in front of a text. -/
def readField (width : Nat) (text : Bytes) : Option (Nat × Bytes) :=
  let field := text.take width
  if field.length = width ∧ field.all Decimal.isDigit then
    some (Decimal.value field, text.drop width)
  else none

/-- Go past a mark in front of a text. -/
def readMark (mark text : Bytes) : Option Bytes :=
  if mark <+: text then some (text.drop mark.length) else none

/-- Read a header, of which nothing may be missing and behind which nothing may stand. -/
def read (text : Bytes) : Option Heading := do
  let letter ← text.head?
  let (month, text) ← readField 2 text.tail
  let (day, text) ← readField 2 text
  let text ← readMark (ascii " ") text
  let (hour, text) ← readField 2 text
  let text ← readMark (ascii ":") text
  let (minute, text) ← readField 2 text
  let text ← readMark (ascii ":") text
  let (second, text) ← readField 2 text
  let text ← readMark (ascii ".") text
  let (micros, text) ← readField 6 text
  if text = ascii "  " then some ⟨letter, ⟨month, day, hour, minute, second⟩, micros⟩ else none

theorem readField_append {width number : Nat} {field : Bytes} (hfield : IsField width number field)
    (rest : Bytes) : readField width (field ++ rest) = some (number, rest) := by
  obtain ⟨rfl, hfigures, rfl⟩ := hfield
  have hdigits : field.all Decimal.isDigit = true :=
    List.all_eq_true.mpr fun byte hbyte => Decimal.isDigit_iff.mpr (hfigures byte hbyte)
  rw [readField, List.take_left, List.drop_left, if_pos ⟨rfl, hdigits⟩, Decimal.value_eq_spelled]

theorem readMark_append (mark rest : Bytes) : readMark mark (mark ++ rest) = some rest := by
  rw [readMark, if_pos (List.prefix_append mark rest), List.drop_left]

end Heading

theorem Level.zero_ne_letter (level : Level) : 0 ≠ level.letter := by
  rw [letter]
  split_ifs <;> decide

namespace Entry

theorem isField_twoDigits {value : Nat} (hvalue : value < 100) :
    IsField 2 value (twoDigits value) := by
  have hword : value.toUInt64.toNat = value :=
    UInt64.toNat_ofNat_of_lt' (Nat.lt_trans hvalue (by decide))
  exact Decimal.isField_ofUInt64 hword (by decide) hvalue

theorem isField_sixDigits {micros : Int} (hstart : 0 ≤ micros) (hend : micros < 1000000) :
    IsField 6 micros.toNat (sixDigits micros.toInt64.toUInt64) := by
  have hword : micros.toInt64.toUInt64.toNat = micros.toNat := by
    change (BitVec.ofInt 64 micros).toNat = micros.toNat
    rw [BitVec.toNat_ofInt]
    omega
  exact Decimal.isField_ofUInt64 hword (by decide) (by omega)

/-- The numbers of a header fill their fields. -/
structure FillsFields (entry : Entry) (date : Calendar) : Prop where
  month : IsField 2 date.month (twoDigits date.month)
  day : IsField 2 date.day (twoDigits date.day)
  hour : IsField 2 date.hour (twoDigits date.hour)
  minute : IsField 2 date.minute (twoDigits date.minute)
  second : IsField 2 date.second (twoDigits date.second)
  micros : IsField 6 entry.stamp.micros.toNat (sixDigits entry.stamp.micros.toInt64.toUInt64)

variable {entry : Entry}

/-- No number outgrows its field: not those of a date and a time of day, and not the
microseconds of a second. -/
theorem fillsFields {date : Calendar} (htells : date.Tells entry.stamp.seconds)
    (hstart : 0 ≤ entry.stamp.micros) (hend : entry.stamp.micros < 1000000) :
    entry.FillsFields date := by
  obtain ⟨hmonth, hday⟩ := htells.date_le
  obtain ⟨hhour, hminute, hsecond⟩ := htells.bounds
  constructor
  · exact isField_twoDigits (by omega)
  · exact isField_twoDigits (by omega)
  · exact isField_twoDigits (by omega)
  · exact isField_twoDigits (by omega)
  · exact isField_twoDigits (by omega)
  · exact isField_sixDigits hstart hend

/-- The text of a header. -/
theorem fullHeader_eq (entry : Entry) :
    let date := Calendar.ofEpoch entry.stamp.seconds
    entry.fullHeader = entry.level.letter :: (twoDigits date.month ++ (twoDigits date.day ++
      (ascii " " ++ (twoDigits date.hour ++ (ascii ":" ++ (twoDigits date.minute ++
      (ascii ":" ++ (twoDigits date.second ++ (ascii "." ++
      (sixDigits entry.stamp.micros.toInt64.toUInt64 ++ ascii "  ")))))))))) := by
  simp [fullHeader, Piece.render]

theorem spaces_suffix_fullHeader (entry : Entry) : ascii "  " <:+ entry.fullHeader := by
  rw [fullHeader]
  simp only [concat_cons, concat_nil, List.append_nil, ← List.append_assoc]
  exact List.suffix_append _ _

section Filled

variable (hfills : entry.FillsFields (Calendar.ofEpoch entry.stamp.seconds))
include hfills

theorem length_fullHeader : entry.fullHeader.length = 23 := by
  rw [fullHeader_eq]
  simp only [List.length_cons, List.length_append, hfills.month.length_eq, hfills.day.length_eq,
    hfills.hour.length_eq, hfills.minute.length_eq, hfills.second.length_eq,
    hfills.micros.length_eq]
  rfl

theorem zero_notMem_fullHeader : 0 ∉ entry.fullHeader := by
  have hspace : 0 ∉ ascii " " := by decide
  have hcolon : 0 ∉ ascii ":" := by decide
  have hpoint : 0 ∉ ascii "." := by decide
  have hspaces : 0 ∉ ascii "  " := by decide
  rw [fullHeader_eq]
  simp only [List.mem_cons, List.mem_append, hfills.month.zero_notMem, hfills.day.zero_notMem,
    hfills.hour.zero_notMem, hfills.minute.zero_notMem, hfills.second.zero_notMem,
    hfills.micros.zero_notMem, hspace, hcolon, hpoint, hspaces, or_false]
  exact entry.level.zero_ne_letter

theorem read_fullHeader :
    Heading.read entry.fullHeader = some ⟨entry.level.letter,
      Calendar.ofEpoch entry.stamp.seconds, entry.stamp.micros.toNat⟩ := by
  rw [fullHeader_eq, Heading.read]
  simp only [List.head?_cons, List.tail_cons, Option.bind_eq_bind, Option.bind_some,
    Heading.readField_append hfills.month, Heading.readField_append hfills.day,
    Heading.readField_append hfills.hour, Heading.readField_append hfills.minute,
    Heading.readField_append hfills.second, Heading.readField_append hfills.micros,
    Heading.readMark_append, if_true]

/-- The header fills its buffer up to the NUL, and nothing of it is lost. -/
theorem header_eq :
    entry.headerBuffer = entry.fullHeader ++ [0] ∧ entry.header = entry.fullHeader := by
  have hroom : entry.fullHeader.length < headerRoom := by
    rw [length_fullHeader hfills]
    decide
  have hbuffer : entry.headerBuffer = entry.fullHeader ++ [0] := Bytes.printed_of_lt hroom
  refine ⟨hbuffer, ?_⟩
  rw [header, hbuffer]
  exact Bytes.untilNul_append_zero (zero_notMem_fullHeader hfills)

end Filled

/-- The line of an entry goes behind what is written. -/
theorem appendTo_eq (entry : Entry) (written : Bytes) :
    entry.appendTo written = written ++ entry.render := by
  rw [render, appendTo, appendTo, concatTo, concatTo, List.nil_append]

theorem render_eq (entry : Entry) :
    entry.render = entry.header ++ Decimal.ofInt64 entry.stamp.thread.toInt64 ++ ascii " " ++
      (Piece.terminated entry.site.file).render ++ ascii ":" ++
      Decimal.ofUInt64 entry.site.line.toUInt64 ++ ascii "] " ++ entry.message ++ ascii "\n" := by
  simp [render, appendTo, concatTo, Piece.render, header]

/-- No line loses anything of its header.  At every time, before 1970 too, and with the
microseconds of a second, the header fills its buffer of 24 bytes but for the NUL at the end:
it has 23 characters, of which the last two are spaces.  Read back, it gives the letter of the
level, the microseconds, and the one date and time of day that tell the seconds.  Behind what
is written before, the line is this header, the thread, the file, or a word if it is unknown,
the number of the line in the file, and the message as it is. -/
theorem header_never_cut (entry : Entry) (written : Bytes)
    (hmicros : 0 ≤ entry.stamp.micros ∧ entry.stamp.micros < 1000000)
    (hthread : -2 ^ 63 ≤ entry.stamp.thread ∧ entry.stamp.thread < 2 ^ 63)
    (hline : entry.site.line < 2 ^ 64)
    (hfile : ∀ name, entry.site.file = some name → 0 ∉ name) :
    (entry.headerBuffer = entry.fullHeader ++ [0] ∧ entry.headerBuffer.length = 24 ∧
      entry.header = entry.fullHeader ∧ entry.header.length = 23 ∧
      ascii "  " <:+ entry.header) ∧
    (∃ date, Heading.read entry.header =
        some ⟨entry.level.letter, date, entry.stamp.micros.toNat⟩ ∧
      date.Tells entry.stamp.seconds ∧ ∀ other, other.Tells entry.stamp.seconds → other = date) ∧
    ∃ thread line, IsInteger entry.stamp.thread thread ∧
      IsNumeral line ∧ Decimal.spelled line = entry.site.line ∧
      entry.render = entry.header ++ thread ++ ascii " " ++
        entry.site.file.getD (ascii "(null)") ++ ascii ":" ++ line ++ ascii "] " ++
        entry.message ++ ascii "\n" ∧
      entry.appendTo written = written ++ entry.render := by
  have htells := Calendar.ofEpoch_tells entry.stamp.seconds
  have hfills := fillsFields htells hmicros.1 hmicros.2
  have hlength := length_fullHeader hfills
  obtain ⟨hbuffer, hheader⟩ := header_eq hfills
  refine ⟨⟨hbuffer, ?_, hheader, ?_, ?_⟩, ?_, ?_⟩
  · rw [hbuffer, List.length_append, hlength]
    rfl
  · rw [hheader, hlength]
  · rw [hheader]
    exact spaces_suffix_fullHeader entry
  · refine ⟨Calendar.ofEpoch entry.stamp.seconds, ?_, htells, fun _ hother => hother.unique htells⟩
    rw [hheader]
    exact read_fullHeader hfills
  · obtain ⟨-, hnumeral, hspelled, -⟩ := Decimal.ofUInt64_spec entry.site.line.toUInt64
    have hword : entry.site.line.toUInt64.toNat = entry.site.line :=
      UInt64.toNat_ofNat_of_lt' hline
    refine ⟨_, _, Decimal.isInteger_ofInt64 hthread.1 hthread.2, hnumeral,
      hspelled.trans hword, ?_, appendTo_eq entry written⟩
    rw [render_eq, Piece.render_terminated hfile]

/-- The last microsecond before 1970 is written in full, and a message that looks like the
front of a line stands behind it unchanged. -/
theorem last_moment_before_epoch_kept :
    let entry : Entry :=
      ⟨Site.of "gen.cc" 7, Level.fatal, ⟨-1, 999999, -42⟩, ascii "42 a.cc:1] b"⟩
    (entry.header = ascii "F1231 23:59:59.999999  " ∧ entry.headerBuffer.length = 24) ∧
      (∃ date, Heading.read entry.header = some ⟨'F'.toUInt8, date, 999999⟩ ∧
        date.Tells (-1) ∧ ∀ other : Calendar, other.Tells (-1) → other = date) ∧
      entry.appendTo (ascii "> ") =
        ascii "> F1231 23:59:59.999999  -42 gen.cc:7] 42 a.cc:1] b\n" := by
  intro entry
  have hheader : entry.header = ascii "F1231 23:59:59.999999  " := by decide
  have hrender : entry.render =
      ascii "F1231 23:59:59.999999  -42 gen.cc:7] 42 a.cc:1] b\n" := by decide
  have hfile : ∀ name, entry.site.file = some name → 0 ∉ name := by
    intro name hname
    cases hname
    decide
  obtain ⟨⟨-, hbuffer, -⟩, hread, _, _, -, -, -, -, happend⟩ :=
    header_never_cut entry (ascii "> ") (by decide) (by decide) (by decide) hfile
  refine ⟨⟨hheader, hbuffer⟩, hread, ?_⟩
  rw [happend, hrender]
  rfl

end Entry

end Log

end TokenMint
