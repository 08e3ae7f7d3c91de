import TokenMint.Host
import TokenMint.Log.Check
import TokenMint.Random.System

/-!
# Random sources

A source fills a buffer with random bytes and rates how unpredictable they are.
It is the kernel or a scripted source of the host.
-/

namespace TokenMint

open TokenMint.Log (Site)

/-- Where random bytes come from. -/
inductive RandomSource where
  | system
  | scripted (index : Nat)
deriving DecidableEq, Repr, Inhabited

namespace RandomSource

/-- Put one more scripted source on the host. -/
def addScripted (script : ScriptedRandom) (host : Host) : RandomSource × Host :=
  (.scripted host.sources.length, { host with sources := host.sources ++ [script] })

/-- The rating of a source.  A scripted source that is not there has the lowest
rating. -/
def security (source : RandomSource) (host : Host) : Security :=
  match source with
  | .system => Security.secure
  | .scripted index => ((host.sources[index]?).map (·.security)).getD ⟨0⟩

/-- Take `length` bytes from a scripted source. -/
def readScripted (index length : Nat) (host : Host) : SystemRandom.Outcome × Host :=
  match host.sources[index]? with
  | none => (⟨Status.unavailable [], []⟩, host)
  | some script =>
      let (answer, after) := script.draw
      let host := { host with sources := host.sources.set index after }
      match answer with
      | .ok word => (⟨Status.ok, ScriptedRandom.spread length word⟩, host)
      | .error status => (⟨status, []⟩, host)

/-- Fill the first `length` bytes of a buffer.  The answer is the status, and
the buffer with the bytes that were delivered.  The kernel needs a buffer unless
nothing is asked for. -/
def read (source : RandomSource) (buffer : Option Bytes) (length : Nat) :
    Hosted (Status × Bytes) :=
  match source with
  | .system =>
      if length = 0 then return (Status.ok, buffer.getD [])
      else do
        let buffer ← Host.logging (Log.Check.present (Site.of "Random" 1) (ascii "dst") buffer)
        let outcome ← Host.kernelStep (SystemRandom.read length)
        return (outcome.status, Bytes.overwrite buffer outcome.delivered)
  | .scripted index => do
      let outcome ← Effect.ofState (readScripted index length)
      return (outcome.status, Bytes.overwrite (buffer.getD []) outcome.delivered)

/-- Read eight bytes as a word, most significant byte first. -/
def word (source : RandomSource) : Hosted (Except Status UInt64) := do
  let (status, buffer) ← source.read (some (List.replicate 8 0)) 8
  return if status.isOk then .ok (BigEndian.decode64 buffer) else .error status

/-- Read a word into a destination, which must be given.  The answer is the
status and what the destination holds then. -/
def readWord (source : RandomSource) (destination : Option UInt64) :
    Hosted (Status × UInt64) := do
  let old ← Host.logging (Log.Check.present (Site.of "Random" 2) (ascii "out") destination)
  match ← source.word with
  | .ok word => return (Status.ok, word)
  | .error status => return (status, old)

end RandomSource

end TokenMint
