import TokenMint.Hex
import TokenMint.Log.Registry

/-!
# Loggers

A logger collects the message of one entry, if anyone wants the entry, and logs
it at its end.  Numbers are printed in base ten until the message switches to
base sixteen.
-/

namespace TokenMint.Log

/-- One thing put into a message. -/
inductive Part where
  | text (bytes : Bytes)
  | flag (value : Bool)
  | number (value : Int64)
  /-- Print the numbers that follow in base sixteen. -/
  | baseSixteen
deriving DecidableEq, Repr

instance : Coe String Part where
  coe literal := .text (ascii literal)

/-- A message so far, and how it prints numbers. -/
structure Message where
  text : Bytes
  inSixteen : Bool
deriving DecidableEq, Repr, Inhabited

namespace Message

def blank : Message := ⟨[], false⟩

def number (message : Message) (value : Int64) : Bytes :=
  if message.inSixteen then Hex.numeral value.toUInt64 else Decimal.ofInt64 value

/-- The text that a part adds to a message. -/
def textOf (message : Message) : Part → Bytes
  | .text bytes => bytes
  | .flag value => message.number (if value then 1 else 0)
  | .number value => message.number value
  | .baseSixteen => []

def add (message : Message) (part : Part) : Message :=
  ⟨message.text ++ message.textOf part, message.inSixteen || part == .baseSixteen⟩

def addAll (message : Message) (parts : List Part) : Message :=
  parts.foldl add message

end Message

/-- The collector of one message.  Without a message it collects nothing. -/
structure Logger where
  site : Site
  level : Level
  message : Option Message
deriving DecidableEq, Repr

namespace Logger

/-- The logger that collects nothing. -/
def idle : Logger := ⟨⟨none, 0⟩, 0, none⟩

/-- Start a message for an entry of this place and level, if it is wanted.  A
place that is not known, or that logs never, ends the process. -/
def start (site : Site) (every : Nat) (level : Level) : Logging Logger := do
  if !site.isKnown || every == 0 then Effect.terminate
  if ← wants site every level then return ⟨site, level, some Message.blank⟩
  return ⟨site, level, none⟩

def isActive (logger : Logger) : Bool :=
  logger.message.isSome

def add (logger : Logger) (parts : List Part) : Logger :=
  { logger with message := logger.message.map (·.addAll parts) }

/-- The entry that the logger would log now. -/
def entry (logger : Logger) : Logging Entry :=
  match logger.message with
  | some message => entryNow logger.site logger.level message.text
  | none => pure Entry.blank

/-- Log the message, if there is one. -/
def finish (logger : Logger) : Logging Unit := do
  if logger.isActive then write (← logger.entry)

/-- Run a computation while the logger is live.  A fault logs the message on its
way out and stays that fault; another one on top of it ends the process. -/
def whileLive {α : Type} (logger : Logger) (act : Logging α) : Logging α :=
  fun log =>
    match act log with
    | (.error (.raised fault), after) =>
        (do Effect.confined logger.finish; Effect.raise fault : Logging α) after
    | outcome => outcome

end Logger

/-- Log a message of this place and level every `every`-th time. -/
def sayEvery (site : Site) (every : Nat) (level : Level) (parts : List Part) :
    Logging Unit := do
  ((← Logger.start site every level).add parts).finish

/-- Log a message of this place and level. -/
def say (site : Site) (level : Level) (parts : List Part) : Logging Unit :=
  sayEvery site 1 level parts

end TokenMint.Log
