import TokenMint.Concat
import TokenMint.Effect
import TokenMint.Security
import TokenMint.Status.Basic
import TokenMint.Token.Basic

/-!
# Generators

A generator turns clock readings and random words into tokens whose timestamp
and counter grow from one token to the next.  It follows the clock forward.
While the clock stands still or goes back it counts up, and a counter that is
used up moves its timestamp one millisecond ahead.  A call first draws a word
and then commits a token; only the second part touches the state.
-/

namespace TokenMint

/-- Counts of what a generator has done, and where it stands. -/
structure GeneratorStats where
  /-- How many tokens it has minted. -/
  minted : UInt64
  /-- How often a used-up counter has moved the timestamp ahead. -/
  forcedTicks : UInt64
  /-- How many clock readings were below the reading before. -/
  regressions : UInt64
  /-- The timestamp of the last token. -/
  lastMs : UInt64
  /-- How far that timestamp was ahead of the clock. -/
  driftMs : Int64
deriving DecidableEq, Repr, Inhabited

/-- The state of a generator. -/
structure Generator where
  started : Bool
  lastMs : UInt64
  counter : UInt64
  lastWall : UInt64
  stats : GeneratorStats
deriving DecidableEq, Repr, Inhabited

/-- What a generator mints: the timestamp and the counter at which it stands, in
full width, the word it was given, and whether the timestamp had to be moved
ahead, with its lead over the clock. -/
structure Minted where
  timestamp : UInt64
  counter : UInt64
  word : UInt64
  forced : Bool
  driftMs : Int64
deriving DecidableEq, Repr

/-- The token itself, in which every field is cut to its width. -/
def Minted.token (minted : Minted) : Token :=
  Token.pack minted.timestamp minted.counter minted.word

namespace Generator

/-- A generator that has not minted yet. -/
def fresh : Generator :=
  ⟨false, 0, 0, 0, ⟨0, 0, 0, 0, 0⟩⟩

/-- The refusal to draw from a source with this rating. -/
def weakSource (security : Security) : Status :=
  Status.failedPrecondition
    (concat ["random source is rated \"", .text security.name, "\", need at least \"",
      .text Security.secure.name, "\""])

/-- Take note of a clock reading. -/
def observe (generator : Generator) (now : UInt64) : Generator :=
  let back := generator.started && now < generator.lastWall
  { generator with
    lastWall := now
    stats :=
      { generator.stats with
        regressions := generator.stats.regressions + if back then 1 else 0 } }

/-- Move to the next pair of timestamp and counter.  The answer tells whether
the timestamp had to leave the clock behind. -/
def advance (generator : Generator) (now : UInt64) : Bool × Generator :=
  if !generator.started || now > generator.lastMs then
    (false, { generator with started := true, lastMs := now, counter := 0 })
  else if generator.counter + 1 > Token.maxCounter then
    (true, { generator with
      lastMs := generator.lastMs + 1
      counter := 0
      stats := { generator.stats with forcedTicks := generator.stats.forcedTicks + 1 } })
  else (false, { generator with counter := generator.counter + 1 })

/-- Count a token with the present timestamp. -/
def account (generator : Generator) (now : UInt64) : Generator :=
  { generator with
    stats :=
      { generator.stats with
        minted := generator.stats.minted + 1
        lastMs := generator.lastMs
        driftMs := (generator.lastMs - now).toInt64 } }

/-- Mint a token from a clock reading and a random word. -/
def commit (generator : Generator) (now word : UInt64) : Minted × Generator :=
  let (forced, moved) := (generator.observe now).advance now
  let after := moved.account now
  (⟨after.lastMs, after.counter, word, forced, after.stats.driftMs⟩, after)

end Generator

end TokenMint
