import TokenMint.Concat
import TokenMint.Log.Calendar

/-!
# Log entries

An entry is one message, with the place it comes from, how serious it is, and
when and by whom it was written.  A line of the log starts with a header of 23
characters: letter, date, time of day and two spaces.
-/

namespace TokenMint.Log

/-- How serious a message is.  Below `info` lie the ever more verbose levels. -/
abbrev Level := Int

namespace Level

def info : Level := 1

def warn : Level := 2

def error : Level := 3

/-- Ends a process that is being debugged. -/
def debugFatal : Level := 4

/-- Ends the process. -/
def fatal : Level := 5

/-- The `depth`-th verbose level. -/
def verbose (depth : Nat) : Level := -depth

/-- The letter that a line of this level starts with. -/
def letter (level : Level) : UInt8 :=
  if level ≥ debugFatal then 'F'.toUInt8
  else if level ≥ error then 'E'.toUInt8
  else if level ≥ warn then 'W'.toUInt8
  else if level ≥ info then 'I'.toUInt8
  else 'D'.toUInt8

end Level

/-- A place in a program.  The file may be unknown, and so may the line, which
is zero then. -/
structure Site where
  file : Option Bytes
  line : Nat
deriving DecidableEq, Repr, Inhabited

/-- A place in a known file. -/
def Site.of (file : String) (line : Nat) : Site :=
  ⟨some (ascii file), line⟩

/-- Whether a place is known in full. -/
def Site.isKnown (site : Site) : Bool :=
  site.file.isSome && site.line != 0

/-- When an entry was written, in seconds and microseconds since the start of
1970, and the number of the thread that wrote it. -/
structure Stamp where
  seconds : Int
  micros : Int
  thread : Int
deriving DecidableEq, Repr, Inhabited

/-- One message of the log. -/
structure Entry where
  site : Site
  level : Level
  stamp : Stamp
  message : Bytes
deriving DecidableEq, Repr, Inhabited

namespace Entry

/-- The entry that nobody wrote. -/
def blank : Entry :=
  ⟨⟨none, 0⟩, 0, ⟨0, 0, 0⟩, []⟩

/-- Whether an entry comes from a known place; others are never delivered. -/
def isValid (entry : Entry) : Bool :=
  entry.site.isKnown

def twoDigits (value : Nat) : Bytes :=
  Bytes.padLeft 2 '0'.toUInt8 (Decimal.ofNat value)

def sixDigits (value : UInt64) : Bytes :=
  Bytes.padLeft 6 '0'.toUInt8 (Decimal.ofUInt64 value)

/-- How many bytes the buffer of a header has, the NUL at its end included. -/
def headerRoom : Nat := 24

/-- Letter, date and time of day, as a line starts with. -/
def fullHeader (entry : Entry) : Bytes :=
  let date := Calendar.ofEpoch entry.stamp.seconds
  concat [.byte entry.level.letter, .text (twoDigits date.month), .text (twoDigits date.day),
    " ", .text (twoDigits date.hour), ":", .text (twoDigits date.minute), ":",
    .text (twoDigits date.second), ".",
    .text (sixDigits entry.stamp.micros.toInt64.toUInt64), "  "]

/-- The header as it is printed into its buffer. -/
def headerBuffer (entry : Entry) : Bytes :=
  entry.fullHeader.printed headerRoom

/-- The header as a line keeps it, cut if the buffer is too small for it. -/
def header (entry : Entry) : Bytes :=
  entry.headerBuffer.untilNul

/-- Behind `written`, add the line of an entry, with the newline at its end. -/
def appendTo (written : Bytes) (entry : Entry) : Bytes :=
  concatTo written [.terminated (some entry.headerBuffer),
    .signed entry.stamp.thread.toInt64, " ", .terminated entry.site.file, ":",
    .unsigned entry.site.line.toUInt64, "] ", .text entry.message, "\n"]

/-- The line of an entry. -/
def render (entry : Entry) : Bytes :=
  entry.appendTo []

end Entry

end TokenMint.Log
