import TokenMint.BigEndian
import TokenMint.Security
import TokenMint.Status.Basic

/-!
# Scripted randomness

A random source whose words are fixed beforehand.  Each read takes the next
word or the next failure; when none is left, the words count up from zero.
-/

namespace TokenMint

/-- A random source with a rating of its own, the answers it has left, and the
word that it goes on with after them. -/
structure ScriptedRandom where
  security : Security
  answers : List (Except Status UInt64)
  next : UInt64

namespace ScriptedRandom

/-- The source with these answers, none of them given yet. -/
def start (security : Security) (answers : List (Except Status UInt64)) : ScriptedRandom :=
  ⟨security, answers, 0⟩

/-- Take the next word. -/
def draw (source : ScriptedRandom) : Except Status UInt64 × ScriptedRandom :=
  match source.answers with
  | answer :: rest => (answer, { source with answers := rest })
  | [] => (.ok source.next, { source with next := source.next + 1 })

/-- The first `length` bytes of a word, and zeros behind all of it. -/
def spread (length : Nat) (word : UInt64) : Bytes :=
  (BigEndian.encode64 word ++ List.replicate (length - 8) 0).take length

end ScriptedRandom

end TokenMint
