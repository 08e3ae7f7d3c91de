import TokenMint.Log.Target
import TokenMint.Table

/-!
# The log

The log keeps its targets in the order of their registration, the use counts of
the places that log only every so often, and a journal.  A fault of one target
does not reach the others: it is contained and reported, unless it is a bare
number, which escapes.
-/

namespace TokenMint

/-- The state of the log. -/
structure Log where
  targets : List Log.Target
  uses : Table (Bytes × Nat) fun _ => Nat
  debug : Bool
  stamp : Log.Stamp
  journal : Log.Journal

/-- A computation that may log. -/
abbrev Logging := Effect Log

namespace Log

/-- The log of a fresh process: standard error is the only target, and debug
failures are fatal. -/
def fresh (stamp : Stamp) : Log :=
  ⟨[Target.standardError], Table.empty, true, stamp, []⟩

/-- Register one more occurrence of a target, behind the others. -/
def addTarget (log : Log) (target : Target) : Log :=
  { log with targets := log.targets ++ [target] }

/-- Drop the first occurrence of a target, if there is one. -/
def removeTarget (log : Log) (id : TargetId) : Log :=
  { log with targets := log.targets.eraseP fun target => target.id = id }

def setDebug (log : Log) (debug : Bool) : Log :=
  { log with debug }

def setTime (log : Log) (seconds micros : Int) : Log :=
  { log with stamp := { log.stamp with seconds, micros } }

def setThread (log : Log) (thread : Int) : Log :=
  { log with stamp := { log.stamp with thread } }

def record (event : Event) : Logging Unit :=
  modify fun log => { log with journal := log.journal ++ [event] }

/-- Ask a target whether it wants entries of this place and level. -/
def ask (target : Target) (site : Site) (level : Level) : Logging Bool := do
  let before := (← get).journal
  record (.asked target.id site level)
  Effect.ofExcept (target.wants before site level)

def deliver (target : Target) (entry : Entry) : Logging Unit := do
  let before := (← get).journal
  record (.delivered target.id entry)
  Effect.ofExcept (target.deliver before entry)

def flush (target : Target) : Logging Unit := do
  let before := (← get).journal
  record (.flushed target.id)
  Effect.ofExcept (target.flush before)

/-- Contain the faults of a call to a target: report the fault and go on with
`otherwise`.  A fault that cannot be contained is raised again. -/
def guarded {α : Type} (otherwise : α) (call : Logging α) : Logging α :=
  fun log =>
    match call log with
    | (.error (.raised fault), after) =>
        if fault.isContainable then
          (do record (.reported fault.message.untilNul); pure otherwise : Logging α) after
        else (.error (.raised fault), after)
    | outcome => outcome

/-- Ask the targets in order until one wants the entry. -/
def askAny (site : Site) (level : Level) : List Target → Logging Bool
  | [] => pure false
  | target :: rest => do
      if ← guarded false (ask target site level) then pure true
      else askAny site level rest

/-- Count one use of a place that logs every `every`-th time.  The first use of
each round passes. -/
def countUse (site : Site) (every : Nat) : Logging Bool := do
  let log ← get
  let key := (site.file.getD [], site.line)
  let count := (log.uses.find? key).getD 0
  set { log with uses := log.uses.insert key ((count + 1) % every) }
  pure (count == 0)

/-- Whether anyone wants an entry of this place and level now.  The fatal
levels are always wanted and neither count nor ask. -/
def wants (site : Site) (every : Nat) (level : Level) : Logging Bool := do
  if level ≥ Level.debugFatal then pure true
  else if every > 1 then
    if ← countUse site every then askAny site level (← get).targets
    else pure false
  else askAny site level (← get).targets

/-- Hand an entry to a target if the target wants it. -/
def offer (entry : Entry) (target : Target) : Logging Unit :=
  guarded () do
    if ← ask target entry.site entry.level then deliver target entry

/-- Hand a valid entry to every target that wants it, and after a serious one,
valid or not, flush every target. -/
def dispatch (entry : Entry) : Logging Unit := do
  let targets := (← get).targets
  if entry.isValid then targets.forM (offer entry)
  if entry.level ≥ Level.error then targets.forM fun target => guarded () (flush target)

/-- Whether an entry of this level ends the process. -/
def isFatal (debug : Bool) (level : Level) : Bool :=
  level ≥ Level.fatal || (level ≥ Level.debugFatal && debug)

/-- Log an entry.  The process ends behind a fatal one. -/
def write (entry : Entry) : Logging Unit := do
  dispatch entry
  if isFatal (← get).debug entry.level then Effect.terminate

/-- The entry of this place, level and message, written now. -/
def entryNow (site : Site) (level : Level) (message : Bytes) : Logging Entry := do
  return ⟨site, level, (← get).stamp, message⟩

end Log

end TokenMint
