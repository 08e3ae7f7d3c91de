import TokenMint.Clock.Basic
import TokenMint.Generator.Basic
import TokenMint.Log.Check
import TokenMint.Random.Source

/-!
# Mints

A mint is a generator with the clock that it reads and the source that it draws
from.  It warns now and then while its timestamps run ahead of the clock.
-/

namespace TokenMint

open TokenMint.Log (Level Part Site)

/-- A generator at work on a host. -/
structure Mint where
  clock : Clock
  source : RandomSource
  generator : Generator
deriving Repr

/-- A computation that works with a mint. -/
abbrev Minting := Effect (Mint × Host)

/-- A computation that works with a mint and may fill a destination.  There
may be none to fill. -/
abbrev Filling := Effect (Option Token × Mint × Host)

namespace Mint

/-- The mint of a clock and a source, both of which must be there.  The source
is looked at first. -/
def create (clock : Clock) (source : Option RandomSource) : Hosted Mint := do
  let source ← Host.logging
    (Log.Check.present (Site.of "Mint" 1) (ascii "std::move(random)") source)
  clock.assertValid
  return ⟨clock, source, Generator.fresh⟩

/-- The mint of the process: its clock at this moment, and the kernel's
randomness. -/
def ofHost : Hosted Mint := do
  create (Clock.ofHost (← get)) (some .system)

/-- Run a computation on the host alone. -/
def hosted {α : Type} (act : Hosted α) : Minting α :=
  Effect.onPart Prod.snd (fun (mint, _) host => (mint, host)) act

/-- Where the warning about forced ticks comes from. -/
def warningSite : Site := Site.of "Mint" 2

/-- Of how many forced ticks one is warned about. -/
def warningPeriod : Nat := 64

/-- What the warning tells. -/
def warningParts (driftMs : Int64) : List Part :=
  ["token counter exhausted within one millisecond; ", "internal clock now ",
    .number driftMs, "ms ahead of wall time"]

/-- Draw a word for the next token, unless the source is too weak. -/
def draw : Minting (Except Status UInt64) := do
  let (mint, host) ← get
  let security := mint.source.security host
  if security.isSecure then hosted mint.source.word
  else return .error (Generator.weakSource security)

/-- Mint a token from a word at the present time. -/
def commit (word : UInt64) : Minting Minted := do
  let (mint, _) ← get
  let now ← hosted mint.clock.now
  let (minted, generator) := mint.generator.commit now word
  modify fun (mint, host) => ({ mint with generator }, host)
  return minted

/-- Warn about a token whose minting forced the timestamp ahead. -/
def warn (minted : Minted) : Minting Unit :=
  if minted.forced then
    hosted (Host.logging
      (Log.sayEvery warningSite warningPeriod Level.warn (warningParts minted.driftMs)))
  else pure ()

/-- Mint a token.  A source that is weak or fails is told by a status, and a
clock that fails by a fault; the generator is then as before. -/
def next : Minting (Except Status Token) := do
  match ← draw with
  | .error status => return .error status
  | .ok word =>
    let minted ← commit word
    warn minted
    return .ok minted.token

/-- Run a computation that leaves the destination alone. -/
def aside {α : Type} (act : Minting α) : Filling α :=
  Effect.onPart Prod.snd (fun (held, _) state => (held, state)) act

/-- Mint a token into a destination, which must be given.  The destination is
written at the very end, and only on success. -/
def generate : Filling Status := do
  let (destination, _) ← get
  let _ ← aside (hosted (Host.logging
    (Log.Check.present (Site.of "Mint" 3) (ascii "out") destination)))
  match ← aside next with
  | .error status => return status
  | .ok token =>
    modify fun (_, state) => (some token, state)
    return Status.ok

/-- Mint a token, and end the process if that is impossible. -/
def mustGenerate : Minting Token := do
  let (status, token) ← Effect.withCell (some Token.nil) generate
  if !status.isOk then
    hosted (Host.logging (Log.say (Site.of "Mint" 4) Level.fatal
      ["unable to mint a token: ", .text status.render]))
  return token.getD Token.nil

def stats (mint : Mint) : GeneratorStats :=
  mint.generator.stats

end Mint

end TokenMint
