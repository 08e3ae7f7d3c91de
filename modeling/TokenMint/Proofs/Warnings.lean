import Mathlib.Algebra.BigOperators.Group.Finset.Piecewise
import Mathlib.Algebra.Order.BigOperators.Group.Finset
import Mathlib.Data.Nat.ModEq
import TokenMint.Proofs.Rounds
import TokenMint.Proofs.Runs

/-!
# Warnings about forced ticks

All mints of a process warn from one place, and so with one count of its uses.  The
warnings follow the forced ticks of all of them together: one in 64 is told.  The statistics
of the mints count the same ticks, each up to the width of its count.
-/

namespace TokenMint

open TokenMint.Log (Entry Journal Level Target)

/-- Reading a source does not log. -/
theorem RandomSource.log_of_read {source : RandomSource} {buffer : Bytes} {length : Nat}
    {host later : Host} {outcome : Except Stop (Status × Bytes)}
    (hread : source.read (some buffer) length host = (outcome, later)) : later.log = host.log := by
  cases source with
  | system =>
      by_cases hlength : length = 0
      · rw [read, if_pos hlength] at hread
        cases hread
        rfl
      · rw [read, if_neg hlength] at hread
        cases hread
        rfl
  | scripted index =>
      have hscript : (readScripted index length host).2.log = host.log := by
        rw [readScripted]
        cases host.sources[index]? with
        | none => rfl
        | some script =>
            rcases hdraw : script.draw with ⟨word | status, after⟩
            · simp only [hdraw]
            · simp only [hdraw]
      cases hread
      exact hscript

/-- Reading a clock does not log. -/
theorem Clock.log_of_now {clock : Clock} {host later : Host} {outcome : Except Stop UInt64}
    (hnow : clock.now host = (outcome, later)) : later.log = host.log := by
  have hread : (clock.read host).2.log = host.log := by
    cases clock with
    | empty => rfl
    | kernel => rfl
    | device index =>
        rw [read]
        split
        · rfl
        · rfl
  rw [now, Effect.bind_of_ok (Effect.ofState_apply clock.read host), Effect.ofExcept_apply] at hnow
  cases hnow
  exact hread

namespace Mint

/-- The text of the warning. -/
theorem text_warningParts (driftMs : Int64) :
    (Log.Message.blank.addAll (warningParts driftMs)).text =
      concat ["token counter exhausted within one millisecond; internal clock now ",
        .signed driftMs, "ms ahead of wall time"] := by
  rfl

/-- What a mint with this drift says to the log when it warns. -/
def tell (driftMs : Int64) : Logging Unit :=
  Log.sayEvery warningSite warningPeriod Level.warn (warningParts driftMs)

section Tell

variable {log : Log} (driftMs : Int64)

theorem tell_of_later (hlater : log.usesAt warningSite ≠ 0) :
    tell driftMs log = (.ok (), log.used warningSite warningPeriod) :=
  Log.sayEvery_of_later _ rfl (by decide) (by decide) hlater

theorem tell_answers (log : Log) :
    ∃ events,
      tell driftMs log = (.ok (), (log.used warningSite warningPeriod).extend events) ∨
      ∃ fault, Log.Escapes log.targets fault ∧
        tell driftMs log =
          (.error (.raised fault), (log.used warningSite warningPeriod).extend events) :=
  Log.sayEvery_answers _ rfl (by decide) (by decide) log

theorem tell_of_first {watcher : Target} (hinsists : watcher.Insists warningSite Level.warn)
    (hwatched : watcher ∈ log.targets) (hfirst : log.usesAt warningSite = 0) {after : Log}
    (htold : tell driftMs log = (.ok (), after)) :
    ∃ events, after = (log.used warningSite warningPeriod).extend events ∧
      Log.Reaches
        ⟨warningSite, Level.warn, log.stamp,
          concat ["token counter exhausted within one millisecond; internal clock now ",
            .signed driftMs, "ms ahead of wall time"]⟩ log.targets events.receipts := by
  rw [← text_warningParts]
  exact Log.sayEvery_of_first _ rfl (by decide) (by decide) hfirst
    ⟨watcher, hwatched, hinsists⟩ htold

end Tell

section Steps

variable {mint : Mint} {host later : Host}

/-- A call that fails does not log. -/
theorem FailsWith.log_eq {answer : Except Stop Status} (hfails : mint.FailsWith host answer later) :
    later.log = host.log := by
  cases hfails with
  | weak => rfl
  | unread _ hread _ => exact RandomSource.log_of_read hread
  | unclocked _ hread hclock =>
      exact (Clock.log_of_now hclock).trans (RandomSource.log_of_read hread)

/-- Once a call has met a word and a time, it has come as far as the warning without
logging. -/
theorem Meets.next_eq {bytes : Bytes} {now : UInt64} (hmeets : mint.Meets host bytes now) :
    ∃ met : Host, met.log = host.log ∧
      next (mint, host) =
        (do warn (mint.generator.commit now (BigEndian.decode64 bytes)).1
            return .ok (mint.generator.commit now (BigEndian.decode64 bytes)).1.token :
          Minting (Except Status Token))
          ({ mint with
            generator := (mint.generator.commit now (BigEndian.decode64 bytes)).2 }, met) := by
  obtain ⟨hsecure, drawn, met, hread, hclock⟩ := hmeets
  have hdraw := draw_of_secure (decide_eq_true hsecure)
  rw [hosted_eq (RandomSource.word_of_ok hread)] at hdraw
  refine ⟨met, (Clock.log_of_now hclock).trans (RandomSource.log_of_read hread), ?_⟩
  rw [next, Effect.bind_of_ok hdraw]
  exact Effect.bind_of_ok (commit_of_reading _ hclock)

/-- To warn is to tell the log, if there is something to warn about. -/
theorem warn_of_told {minted : Minted} {outcome : Except Stop Unit} {log : Log}
    (hforced : minted.forced = true) (htold : tell minted.driftMs host.log = (outcome, log)) :
    warn minted (mint, host) = (outcome, (mint, { host with log })) := by
  rw [tell] at htold
  rw [warn, if_pos hforced, hosted_apply, Host.logging, Effect.onPart_apply, htold]

end Steps

/-- A call of one of the mints of a process, the mint before it, and what it is made
with. -/
structure Call (Caller : Type) where
  caller : Caller
  before : Mint
  occasion : Occasion

namespace Call

variable {Caller : Type}

def turn (call : Call Caller) : Turn :=
  call.before.turn call.occasion

/-- The host after a call. -/
def later (call : Call Caller) : Host :=
  (generate (some call.occasion.held, call.before, call.occasion.host)).2.2.2

/-- What a call adds to the journal. -/
def news (call : Call Caller) : Journal :=
  call.later.log.journal.drop call.occasion.host.log.journal.length

/-- Some target gets something from a call. -/
def speaks (call : Call Caller) : Bool :=
  call.news.receipts ≠ []

/-- A call forces a tick, as its mint counts them. -/
def forces (call : Call Caller) : Bool :=
  call.turn.forces

def Succeeds (call : Call Caller) : Prop :=
  call.turn.outcome = .ok Status.ok

def Fails (call : Call Caller) : Prop :=
  call.before.Fails call.occasion.host

/-- A call is ended by a fault of a log target that no guard contains. -/
def IsEnded (call : Call Caller) : Prop :=
  ∃ fault, Log.Escapes call.occasion.host.log.targets fault ∧
    call.turn.outcome = .error (.raised fault)

/-- The warning of a call, with the drift that its mint tells afterwards. -/
def warning (call : Call Caller) : Entry :=
  ⟨warningSite, Level.warn, call.occasion.host.log.stamp,
    concat ["token counter exhausted within one millisecond; internal clock now ",
      .signed call.turn.after.stats.driftMs, "ms ahead of wall time"]⟩

/-- A call leaves the journal alone. -/
def IsSilent (call : Call Caller) : Prop :=
  call.later.log.journal = call.occasion.host.log.journal

/-- A call succeeds and warns while its destination still holds what it held.  The
warning goes once to each of some targets, in their order, and a watcher among them;
nothing else goes to any target. -/
def Warns (watcher : Target) (call : Call Caller) : Prop :=
  ∃ token events,
    aside next (some call.occasion.held, call.before, call.occasion.host) =
        (.ok (.ok token), (some call.occasion.held, call.turn.after, call.later)) ∧
      generate (some call.occasion.held, call.before, call.occasion.host) =
        (.ok Status.ok, (some token, call.turn.after, call.later)) ∧
      call.later.log.journal = call.occasion.host.log.journal ++ events ∧
      ∃ takers : List Target, takers.Sublist call.occasion.host.log.targets ∧
        watcher ∈ takers ∧
        events.receipts = takers.map fun target => .delivered target.id call.warning

section Cases

variable {call : Call Caller} {bytes : Bytes} {now : UInt64}

/-- A call that fails leaves its mint as it was. -/
theorem Fails.after_eq (hfails : call.Fails) : call.turn.after = call.before := by
  obtain ⟨answer, later, hfails⟩ := hfails
  rw [turn, turn_of_failsWith hfails]

theorem Fails.forces_eq (hfails : call.Fails) : call.forces = false := by
  obtain ⟨answer, later, hfails⟩ := hfails
  exact forces_of_failsWith hfails

theorem forces_of_meets (hmeets : call.before.Meets call.occasion.host bytes now) :
    call.forces = (call.before.generator.commit now (BigEndian.decode64 bytes)).1.forced :=
  Mint.forces_of_meets hmeets

/-- The statistics of a mint count the ticks that its calls force, up to the width of a
count. -/
theorem toNat_forcedTicks (call : Call Caller) :
    call.turn.after.stats.forcedTicks.toNat =
      (call.before.stats.forcedTicks.toNat + if call.forces then 1 else 0) % 2 ^ 64 := by
  rcases fails_or_meets call.before call.occasion.host with hfails | ⟨bytes, now, hmeets⟩
  · rw [Fails.forces_eq hfails, Fails.after_eq hfails]
    exact (Nat.mod_eq_of_lt call.before.stats.forcedTicks.toNat_lt).symm
  · rw [forces_of_meets hmeets, turn, (turn_of_meets hmeets).2.1]
    exact Generator.toNat_commit_forcedTicks _ _ _

/-- A call that forces nothing does not log. -/
theorem log_eq_of_calm (hcalm : call.forces = false) :
    call.later.log = call.occasion.host.log := by
  rcases fails_or_meets call.before call.occasion.host with ⟨_, _, hfails⟩ | ⟨bytes, now, hmeets⟩
  · rw [later, generate_of_failsWith hfails]
    exact hfails.log_eq
  · rw [forces_of_meets hmeets] at hcalm
    obtain ⟨met, hlog, hnext⟩ := hmeets.next_eq
    rw [warn, hcalm, if_neg Bool.false_ne_true, pure_bind] at hnext
    rw [later, generate_of_token call.occasion.held hnext]
    exact hlog

theorem not_isEnded_of_forces (hends : call.Succeeds ∨ call.Fails) (hforces : call.forces = true) :
    ¬ call.IsEnded := by
  rintro ⟨fault, -, houtcome⟩
  rcases hends with hsucceeds | hfails
  · rw [Succeeds, houtcome] at hsucceeds
    contradiction
  · rw [hfails.forces_eq] at hforces
    contradiction

/-- A call that forces a tick tells the log.  If that comes to an end, the call writes
its token behind it and succeeds, and otherwise it stops there. -/
theorem told_of_forces (hforces : call.forces = true) :
    (tell call.turn.after.stats.driftMs call.occasion.host.log = (.ok (), call.later.log) ∧
      call.Succeeds ∧ ∃ token,
        aside next (some call.occasion.held, call.before, call.occasion.host) =
            (.ok (.ok token), (some call.occasion.held, call.turn.after, call.later)) ∧
          generate (some call.occasion.held, call.before, call.occasion.host) =
            (.ok Status.ok, (some token, call.turn.after, call.later))) ∨
    ∃ stop,
      tell call.turn.after.stats.driftMs call.occasion.host.log = (.error stop, call.later.log) ∧
      call.turn.outcome = .error stop := by
  rcases fails_or_meets call.before call.occasion.host with hfails | ⟨bytes, now, hmeets⟩
  · rw [Fails.forces_eq hfails] at hforces
    contradiction
  have hforced := (forces_of_meets hmeets).symm.trans hforces
  obtain ⟨met, hlog, hnext⟩ := hmeets.next_eq
  rcases htold : tell (call.before.generator.commit now (BigEndian.decode64 bytes)).1.driftMs
    met.log with ⟨outcome, log⟩
  cases outcome with
  | error stop =>
      rw [Effect.bind_of_error (warn_of_told hforced htold)] at hnext
      have hcall := generate_of_stop call.occasion.held hnext
      rw [turn, turn_eq hcall, later, hcall, ← hlog]
      exact Or.inr ⟨stop, htold, rfl⟩
  | ok =>
      rw [Effect.bind_of_ok (warn_of_told hforced htold)] at hnext
      have hcall := generate_of_token call.occasion.held hnext
      rw [Succeeds, turn, turn_eq hcall, later, hcall, ← hlog]
      refine Or.inl ⟨htold, rfl, _, ?_, rfl⟩
      rw [aside_apply, hnext]
      rfl

/-- A call that forces a tick uses up a place in the round, and fails at nothing but the
log. -/
theorem ends_of_forces (hforces : call.forces = true) :
    (∃ events, call.later.log =
        (call.occasion.host.log.used warningSite warningPeriod).extend events) ∧
      (call.Succeeds ∨ call.IsEnded) := by
  obtain ⟨events, hanswer⟩ :=
    tell_answers call.turn.after.stats.driftMs call.occasion.host.log
  rcases told_of_forces hforces with ⟨htold, hsucceeds, -⟩ | ⟨stop, htold, houtcome⟩
  · rcases hanswer with hok | ⟨fault, -, herror⟩
    · exact ⟨⟨events, (Prod.mk.inj (htold.symm.trans hok)).2⟩, Or.inl hsucceeds⟩
    · cases htold.symm.trans herror
  · rcases hanswer with hok | ⟨fault, hescapes, herror⟩
    · cases htold.symm.trans hok
    · obtain ⟨hstop, hlog⟩ := Prod.mk.inj (htold.symm.trans herror)
      rw [Except.error.inj hstop] at houtcome
      exact ⟨⟨events, hlog⟩, Or.inr ⟨fault, hescapes, houtcome⟩⟩

/-- A call leaves the targets of the log as they are. -/
theorem targets_later (call : Call Caller) :
    call.later.log.targets = call.occasion.host.log.targets := by
  cases hforces : call.forces with
  | false => rw [log_eq_of_calm hforces]
  | true =>
      obtain ⟨⟨events, hlog⟩, -⟩ := ends_of_forces hforces
      rw [hlog]
      rfl

/-- A call that meets a word and a time succeeds, unless a fault of a log target escapes. -/
theorem succeeds_of_meets (hmeets : call.before.Meets call.occasion.host bytes now)
    (hcontained : ∀ target ∈ call.occasion.host.log.targets, target.Contained) :
    call.Succeeds := by
  cases hforces : call.forces with
  | false =>
      obtain ⟨met, -, hnext⟩ := hmeets.next_eq
      rw [warn, ← forces_of_meets hmeets, hforces, if_neg Bool.false_ne_true, pure_bind] at hnext
      rw [Succeeds, turn, turn_eq (generate_of_token call.occasion.held hnext)]
  | true =>
      refine (ends_of_forces hforces).2.resolve_right ?_
      rintro ⟨fault, hescapes, -⟩
      exact Log.not_escapes hcontained fault hescapes

/-- A call that forces a tick in the middle of a round does not touch the journal. -/
theorem isSilent_of_forces (hforces : call.forces = true)
    (hlater : call.occasion.host.log.usesAt warningSite ≠ 0) : call.IsSilent := by
  have hquiet := tell_of_later call.turn.after.stats.driftMs hlater
  rcases told_of_forces hforces with ⟨htold, -⟩ | ⟨stop, htold, -⟩
  · obtain ⟨-, hlog⟩ := Prod.mk.inj (htold.symm.trans hquiet)
    rw [IsSilent, hlog]
    rfl
  · cases htold.symm.trans hquiet

/-- A call that forces a tick at the start of a round and succeeds has warned. -/
theorem warns_of_forces {watcher : Target} (hinsists : watcher.Insists warningSite Level.warn)
    (hwatched : watcher ∈ call.occasion.host.log.targets) (hforces : call.forces = true)
    (hfirst : call.occasion.host.log.usesAt warningSite = 0) (hsucceeds : call.Succeeds) :
    call.Warns watcher := by
  rcases told_of_forces hforces with ⟨htold, -, token, hnext, hcall⟩ | ⟨stop, -, houtcome⟩
  · obtain ⟨events, hlog, takers, hsub, hinsist, hreceipts⟩ :=
      tell_of_first _ hinsists hwatched hfirst htold
    exact ⟨token, events, hnext, hcall, congrArg Log.journal hlog, takers, hsub,
      hinsist watcher hwatched hinsists, hreceipts⟩
  · rw [Succeeds, houtcome] at hsucceeds
    contradiction

end Cases

section Speaks

variable {watcher : Target} {call : Call Caller}

theorem Warns.speaks (hwarns : call.Warns watcher) : call.speaks = true := by
  obtain ⟨token, events, -, -, hjournal, takers, -, htakes, hreceipts⟩ := hwarns
  have hnews : call.news = events := by rw [news, hjournal, List.drop_left]
  have hsome : takers ≠ [] := List.ne_nil_of_mem htakes
  simp [Call.speaks, hnews, hreceipts, hsome]

theorem IsSilent.speaks (hsilent : call.IsSilent) : call.speaks = false := by
  have hnews : call.news = [] := by rw [news, hsilent, List.drop_length]
  simp [Call.speaks, hnews]
  rfl

/-- One call after `count` forced ticks.  It is silent, unless it forces a tick at the
start of a round; then it warns or ends with that. -/
theorem warns_or_silent (hinsists : watcher.Insists warningSite Level.warn)
    (hwatched : watcher ∈ call.occasion.host.log.targets) {count : Nat}
    (huses : call.occasion.host.log.usesAt warningSite = count % warningPeriod) :
    (if call.forces ∧ count % warningPeriod = 0 then call.Warns watcher ∨ call.IsEnded
      else call.IsSilent) ∧
      call.later.log.usesAt warningSite =
        (count + if call.forces then 1 else 0) % warningPeriod := by
  cases hforces : call.forces with
  | false =>
      have hlog := log_eq_of_calm hforces
      rw [if_neg fun hdue => Bool.false_ne_true hdue.1, IsSilent, hlog]
      exact ⟨rfl, huses⟩
  | true =>
      obtain ⟨⟨events, hlog⟩, hend⟩ := ends_of_forces hforces
      rw [hlog, Log.usesAt_extend, Log.usesAt_used, huses, Nat.mod_add_mod]
      refine ⟨?_, rfl⟩
      by_cases hfirst : count % warningPeriod = 0
      · rw [if_pos ⟨rfl, hfirst⟩]
        exact hend.imp_left (warns_of_forces hinsists hwatched hforces (huses.trans hfirst))
      · rw [if_neg fun hdue => hfirst hdue.2]
        exact isSilent_of_forces hforces (huses ▸ hfirst)

/-- A call that succeeds or fails is not ended by the log. -/
theorem warns_of_ends {due : Prop} [Decidable due] (hends : call.Succeeds ∨ call.Fails)
    (hforces : due → call.forces = true)
    (hcall : if due then call.Warns watcher ∨ call.IsEnded else call.IsSilent) :
    if due then call.Warns watcher else call.IsSilent := by
  split
  case isTrue hdue =>
    rw [if_pos hdue] at hcall
    exact hcall.resolve_right (not_isEnded_of_forces hends (hforces hdue))
  case isFalse hundue =>
    rw [if_neg hundue] at hcall
    exact hcall

end Speaks

end Call

section Process

variable {Caller : Type} [DecidableEq Caller] {watcher : Target} {fleet last : Caller → Mint}
  {count uses : Nat} {calls : List (Call Caller)}

/-- The calls of a fleet of mints, in their order, from a fleet and a use count of the
place that they warn from.  A call finds its mint and this count as the calls before it
have left them.  Everything else on its host may have changed in between, but for a
watcher that stays. -/
inductive Process (watcher : Target) :
    (Caller → Mint) → Nat → List (Call Caller) → (Caller → Mint) → Prop where
  | nil (fleet : Caller → Mint) (uses : Nat) : Process watcher fleet uses [] fleet
  | cons {fleet last : Caller → Mint} {uses : Nat} {call : Call Caller}
      {rest : List (Call Caller)} (hbefore : call.before = fleet call.caller)
      (huses : call.occasion.host.log.usesAt warningSite = uses)
      (hwatched : watcher ∈ call.occasion.host.log.targets)
      (hrest : Process watcher (Function.update fleet call.caller call.turn.after)
        (call.later.log.usesAt warningSite) rest last) :
      Process watcher fleet uses (call :: rest) last

/-- Each call of a process warns or is silent, by the number of ticks forced before it. -/
theorem Process.warns_or_silent (hinsists : watcher.Insists warningSite Level.warn)
    (hprocess : Process watcher fleet uses calls last) (huses : uses = count % warningPeriod)
    {earlier later : List (Call Caller)} {call : Call Caller}
    (hcalls : calls = earlier ++ call :: later) :
    if call.forces ∧ (count + earlier.countP Call.forces) % warningPeriod = 0 then
      call.Warns watcher ∨ call.IsEnded
    else call.IsSilent := by
  induction hprocess generalizing count earlier with
  | nil => simp at hcalls
  | cons hbefore hfound hwatched hrest ih =>
      obtain ⟨hfirst, hleft⟩ := Call.warns_or_silent hinsists hwatched (hfound.trans huses)
      cases earlier with
      | nil =>
          obtain ⟨rfl, -⟩ := List.cons.inj hcalls
          exact hfirst
      | cons head earlier =>
          obtain ⟨rfl, htail⟩ := List.cons.inj hcalls
          have hlater := ih hleft htail
          rw [List.countP_cons, Nat.add_comm (earlier.countP _), ← Nat.add_assoc]
          exact hlater

/-- A new round starts at every 64th tick. -/
theorem rounds_succ (count : Nat) (forces : Bool) :
    (count + (if forces then 1 else 0) + 63) / 64 =
      (count + 63) / 64 + if forces ∧ count % warningPeriod = 0 then 1 else 0 := by
  have hperiod : warningPeriod = 64 := rfl
  cases forces with
  | false => simp
  | true =>
      by_cases hfirst : count % 64 = 0
      · simp only [hperiod, hfirst, and_self, if_true]
        omega
      · simp only [hperiod, hfirst, and_false, if_true, if_false]
        omega

/-- If no log target ends a call, the calls that speak are one in each round, from the
first one that starts. -/
theorem Process.countP_speaks (hinsists : watcher.Insists warningSite Level.warn)
    (hprocess : Process watcher fleet uses calls last) (huses : uses = count % warningPeriod)
    (hends : ∀ call ∈ calls, call.Succeeds ∨ call.Fails) :
    (count + 63) / 64 + calls.countP Call.speaks =
      (count + calls.countP Call.forces + 63) / 64 := by
  induction hprocess generalizing count with
  | nil => rfl
  | @cons fleet last uses call rest hbefore hfound hwatched hrest ih =>
      rw [List.forall_mem_cons] at hends
      obtain ⟨hfirst, hleft⟩ := Call.warns_or_silent hinsists hwatched (hfound.trans huses)
      have hrounds := ih hleft hends.2
      have hcall := Call.warns_of_ends hends.1 And.left hfirst
      have hspeaks : (if call.speaks then 1 else 0) =
          if call.forces ∧ count % warningPeriod = 0 then 1 else 0 := by
        split at hcall
        case isTrue hdue => rw [hcall.speaks, if_pos rfl, if_pos hdue]
        case isFalse hundue => rw [hcall.speaks, if_neg Bool.false_ne_true, if_neg hundue]
      rw [rounds_succ] at hrounds
      rw [List.countP_cons, List.countP_cons, hspeaks, Nat.add_comm (rest.countP Call.forces),
        ← Nat.add_assoc count, ← hrounds]
      omega

/-- The ticks that one mint has been forced to in a run of calls. -/
def ticksOf (caller : Caller) (calls : List (Call Caller)) : Nat :=
  calls.countP fun call => call.caller = caller ∧ call.forces

theorem ticksOf_cons (caller : Caller) (call : Call Caller) (rest : List (Call Caller)) :
    ticksOf caller (call :: rest) =
      ticksOf caller rest + if call.caller = caller then (if call.forces then 1 else 0) else 0 := by
  rw [ticksOf, List.countP_cons, ← ticksOf]
  by_cases hcaller : call.caller = caller
  · simp [hcaller]
  · simp [hcaller]

/-- The statistics of each mint count its own forced ticks, up to the width of a count. -/
theorem Process.forcedTicks_eq (hprocess : Process watcher fleet uses calls last)
    (caller : Caller) :
    (last caller).stats.forcedTicks.toNat =
      ((fleet caller).stats.forcedTicks.toNat + ticksOf caller calls) % 2 ^ 64 := by
  induction hprocess with
  | nil fleet => exact (Nat.mod_eq_of_lt (fleet caller).stats.forcedTicks.toNat_lt).symm
  | @cons fleet last uses call rest hbefore _ _ _ ih =>
      have hcall := call.toNat_forcedTicks
      rw [hbefore] at hcall
      rw [ih, ticksOf_cons]
      by_cases hcaller : call.caller = caller
      · subst hcaller
        rw [Function.update_self, hcall, if_pos rfl, Nat.mod_add_mod, Nat.add_assoc,
          Nat.add_comm (ticksOf _ _)]
      · rw [Function.update_of_ne (Ne.symm hcaller), if_neg hcaller, Nat.add_zero]

end Process

section Ticks

variable {Caller : Type} [DecidableEq Caller] [Fintype Caller] {watcher : Target}
  {fleet last : Caller → Mint} {uses : Nat} {calls : List (Call Caller)}

/-- The ticks that a fleet has forced, as its statistics tell. -/
def ticks (fleet : Caller → Mint) : Nat :=
  ∑ caller, (fleet caller).stats.forcedTicks.toNat

/-- Every forced tick is one of some mint. -/
theorem sum_ticksOf (calls : List (Call Caller)) :
    ∑ caller, ticksOf caller calls = calls.countP Call.forces := by
  induction calls with
  | nil => simp [ticksOf]
  | cons call rest ih =>
      simp only [ticksOf_cons]
      rw [Finset.sum_add_distrib, ih, Finset.sum_ite_eq, if_pos (Finset.mem_univ _),
        List.countP_cons]

/-- What the statistics of a fleet would tell if a count had no width. -/
theorem sum_ticks (fleet : Caller → Mint) (calls : List (Call Caller)) :
    ∑ caller, ((fleet caller).stats.forcedTicks.toNat + ticksOf caller calls) =
      ticks fleet + calls.countP Call.forces := by
  rw [Finset.sum_add_distrib, sum_ticksOf]
  rfl

theorem Process.ticks_eq_sum (hprocess : Process watcher fleet uses calls last) :
    ticks last =
      ∑ caller, ((fleet caller).stats.forcedTicks.toNat + ticksOf caller calls) % 2 ^ 64 :=
  Finset.sum_congr rfl fun caller _ => hprocess.forcedTicks_eq caller

/-- The statistics count the forced ticks of a process, up to the width of a count. -/
theorem Process.ticks_modEq (hprocess : Process watcher fleet uses calls last) :
    ticks last ≡ ticks fleet + calls.countP Call.forces [MOD 2 ^ 64] := by
  rw [hprocess.ticks_eq_sum, ← sum_ticks]
  exact (Finset.sum_nat_mod _ _ _).symm

/-- The statistics count the forced ticks of a process as long as no count of a mint runs
over, and no longer. -/
theorem Process.ticks_eq_iff (hprocess : Process watcher fleet uses calls last) :
    ticks last = ticks fleet + calls.countP Call.forces ↔
      ∀ caller, (fleet caller).stats.forcedTicks.toNat + ticksOf caller calls < 2 ^ 64 := by
  rw [hprocess.ticks_eq_sum, ← sum_ticks,
    Finset.sum_eq_sum_iff_of_le fun caller _ => Nat.mod_le _ _]
  constructor
  · intro hall caller
    have hcaller := hall caller (Finset.mem_univ caller)
    exact hcaller ▸ Nat.mod_lt _ (by decide)
  · intro hall caller _
    exact Nat.mod_eq_of_lt (hall caller)

/-- The warnings of a process follow the ticks that all of its mints force together, as
long as its calls succeed or fail by themselves.  The first forced tick and every 64th one
after it are warned about, each before its token is written and with the drift of its
mint; no other call logs anything.  So the warnings are a 64th of the forced ticks,
rounded up.  The statistics of the mints count these ticks modulo 2^64, and exactly as long as
no mint has been forced to 2^64 of them. -/
theorem warnings_follow_forced_ticks (hinsists : watcher.Insists warningSite Level.warn)
    (hprocess : Process watcher fleet 0 calls last)
    (hends : ∀ call ∈ calls, call.Succeeds ∨ call.Fails) :
    (∀ earlier call later, calls = earlier ++ call :: later →
      if call.forces ∧ earlier.countP Call.forces % 64 = 0 then call.Warns watcher
      else call.IsSilent) ∧
    calls.countP Call.speaks = (calls.countP Call.forces + 63) / 64 ∧
    ticks last ≡ ticks fleet + calls.countP Call.forces [MOD 2 ^ 64] ∧
    (ticks last = ticks fleet + calls.countP Call.forces ↔
      ∀ caller, (fleet caller).stats.forcedTicks.toNat + ticksOf caller calls < 2 ^ 64) := by
  refine ⟨?_, ?_, hprocess.ticks_modEq, hprocess.ticks_eq_iff⟩
  · intro earlier call later hcalls
    have hcall := hprocess.warns_or_silent hinsists (Nat.zero_mod _).symm hcalls
    rw [Nat.zero_add] at hcall
    exact Call.warns_of_ends (hends call (by simp [hcalls])) And.left hcall
  · have hcount := hprocess.countP_speaks hinsists (Nat.zero_mod _).symm hends
    rw [Nat.zero_add] at hcount
    omega

/-- A mint that has used up the counter of its timestamp. -/
def brink : Mint :=
  ⟨.device 0, .scripted 0, ⟨true, 1000, 4095, 1000, ⟨4096, 0, 0, 1000, 0⟩⟩⟩

/-- The same occasion with one more warning behind it. -/
def Occasion.warned (occasion : Occasion) : Occasion :=
  { occasion with
    host := { occasion.host with log := occasion.host.log.used warningSite warningPeriod } }

/-- Two mints force a tick each, and a call fails in between.  Only the first tick is
warned about. -/
theorem second_tick_untold :
    let watcher := Target.standardError
    let forcing := Occasion.scripted Security.secure (.ok 7) (.ok 1000)
    let failing := Occasion.scripted Security.weak (.ok 7) (.ok 1000)
    let first : Call Bool := ⟨true, brink, forcing⟩
    let second : Call Bool := ⟨false, brink, failing.warned⟩
    let third : Call Bool := ⟨false, brink, forcing.warned⟩
    let calls := [first, second, third]
    ∃ last, watcher.Insists warningSite Level.warn ∧
      Process watcher (fun _ => brink) 0 calls last ∧
      (∀ call ∈ calls, call.Succeeds ∨ call.Fails) ∧
      first.Warns watcher ∧ second.IsSilent ∧ third.IsSilent ∧
      calls.countP Call.speaks = 1 ∧ ticks last = 2 := by
  intro watcher forcing failing first second third calls
  have hinsists : watcher.Insists warningSite Level.warn := fun _ => rfl
  have hprocess : ∃ last, Process watcher (fun _ => brink) 0 calls last :=
    ⟨_, .cons rfl rfl (.head _) (.cons rfl rfl (.head _) (.cons rfl rfl (.head _) (.nil _ _)))⟩
  obtain ⟨last, hprocess⟩ := hprocess
  have hends : ∀ call ∈ calls, call.Succeeds ∨ call.Fails := by
    have hfails : second.Fails := ⟨_, _, .weak (by decide)⟩
    simp only [calls, List.forall_mem_cons]
    exact ⟨Or.inl rfl, Or.inr hfails, Or.inl rfl, List.forall_mem_nil _⟩
  have hforces : calls.countP Call.forces = 2 := by decide
  obtain ⟨hcalls, hspeaks, -, hticks⟩ := warnings_follow_forced_ticks hinsists hprocess hends
  rw [hforces] at hspeaks hticks
  have hfirst := hcalls [] first [second, third] rfl
  have hsecond := hcalls [first] second [third] rfl
  have hthird := hcalls [first, second] third [] rfl
  rw [if_pos (by decide)] at hfirst
  rw [if_neg (by decide)] at hsecond hthird
  exact ⟨last, hinsists, hprocess, hends, hfirst, hsecond, hthird, hspeaks,
    hticks.mpr (by decide)⟩

/-- A call at time zero on a host with this log. -/
def Occasion.atZero (log : Log) : Occasion :=
  let occasion := Occasion.scripted Security.secure (.ok 0) (.ok 0)
  { occasion with host := { occasion.host with log } }

/-- So many calls of one mint while its clock stands at zero.  The log goes on from each call
to the next. -/
def standing (mint : Mint) (log : Log) : Nat → List (Call Unit)
  | 0 => []
  | count + 1 =>
      let call : Call Unit := ⟨(), mint, .atZero log⟩
      call :: standing call.turn.after call.later.log count

section Standing

variable {mint : Mint} {log : Log}

theorem meets_atZero (hclock : mint.clock = .device 0) (hsource : mint.source = .scripted 0)
    (log : Log) : mint.Meets (Occasion.atZero log).host (BigEndian.encode64 0) 0 := by
  obtain ⟨clock, source, generator⟩ := mint
  cases hclock
  cases hsource
  exact ⟨UInt8.le_refl _, _, _, rfl, rfl⟩

/-- Under a clock that stands, a tick is forced whenever 4096 counters are used up. -/
theorem process_standing (hclock : mint.clock = .device 0) (hsource : mint.source = .scripted 0)
    (hsound : mint.generator.Sound) (hwatched : watcher ∈ log.targets) (count : Nat) :
    ∃ last : Mint, last.generator.Sound ∧
      Process watcher (fun _ => mint) (log.usesAt warningSite) (standing mint log count)
        (fun _ => last) ∧
      4096 * (standing mint log count).countP Call.forces + last.generator.used =
        mint.generator.used + count := by
  induction count generalizing mint log with
  | zero => exact ⟨mint, hsound, .nil _ _, Nat.zero_add _⟩
  | succ count ih =>
      let call : Call Unit := ⟨(), mint, .atZero log⟩
      let word := BigEndian.decode64 (BigEndian.encode64 0)
      have hmeets := meets_atZero hclock hsource log
      have hafter : call.turn.after = { mint with generator := (mint.generator.commit 0 word).2 } :=
        (turn_of_meets hmeets).2.1
      have hgenerator : call.turn.after.generator = (mint.generator.commit 0 word).2 :=
        congrArg Mint.generator hafter
      have hforces : call.forces = (mint.generator.commit 0 word).1.forced :=
        forces_of_meets hmeets
      have hused := Generator.used_commit hsound (fun _ => UInt64.zero_le) word
      obtain ⟨last, hlast, hprocess, hcount⟩ :=
        @ih call.turn.after call.later.log ((congrArg Mint.clock hafter).trans hclock)
          ((congrArg Mint.source hafter).trans hsource) (hgenerator ▸ Generator.commit_sound _ _)
          (call.targets_later.symm ▸ hwatched)
      refine ⟨last, hlast, .cons rfl rfl hwatched ?_, ?_⟩
      · rw [Function.update_eq_const_of_subsingleton]
        exact hprocess
      · rw [← hforces] at hused
        rw [hgenerator] at hcount
        change 4096 * (call :: standing call.turn.after call.later.log count).countP Call.forces +
          last.generator.used = mint.generator.used + (count + 1)
        rw [List.countP_cons]
        omega

theorem standing_succeeds (hclock : mint.clock = .device 0) (hsource : mint.source = .scripted 0)
    (hcontained : ∀ target ∈ log.targets, target.Contained) (count : Nat) :
    ∀ call ∈ standing mint log count, call.Succeeds := by
  induction count generalizing mint log with
  | zero => exact List.forall_mem_nil _
  | succ count ih =>
      have hmeets := meets_atZero hclock hsource log
      obtain ⟨-, hafter, -⟩ := turn_of_meets hmeets
      rw [standing, List.forall_mem_cons]
      refine ⟨Call.succeeds_of_meets hmeets hcontained,
        ih ((congrArg Mint.clock hafter).trans hclock)
          ((congrArg Mint.source hafter).trans hsource) ?_⟩
      rw [Call.targets_later]
      exact hcontained

end Standing

/-- Under a clock that stands, a mint is forced to 2^64 ticks in the end, and its count of them
runs over to zero.  The warnings about them have been given all the same. -/
theorem ticks_run_over_to_zero :
    let watcher := Target.standardError
    let calls := standing scripted (Log.fresh ⟨0, 0, 0⟩) (2 ^ 76 + 1)
    watcher.Insists warningSite Level.warn ∧
      ∃ last, Process watcher (fun _ => scripted) 0 calls last ∧
        (∀ call ∈ calls, call.Succeeds ∨ call.Fails) ∧
        calls.countP Call.forces = 2 ^ 64 ∧
        ticks last = 0 ∧
        calls.countP Call.speaks = 2 ^ 58 ∧
        calls.countP Call.speaks ≠ (ticks last + 63) / 64 := by
  intro watcher calls
  have hinsists : watcher.Insists warningSite Level.warn := fun _ => rfl
  have hcontained : ∀ target ∈ (Log.fresh ⟨0, 0, 0⟩).targets, target.Contained := by
    intro target hmem
    rw [List.mem_singleton.mp hmem]
    exact Target.ofPredicate_contained _ _
  have hends : ∀ call ∈ calls, call.Succeeds ∨ call.Fails := fun call hmem =>
    Or.inl (standing_succeeds rfl rfl hcontained _ call hmem)
  obtain ⟨last, hsound, hprocess, hcount⟩ := @process_standing watcher scripted
    (Log.fresh ⟨0, 0, 0⟩) rfl rfl Generator.fresh_sound (List.mem_singleton_self _) (2 ^ 76 + 1)
  have hprocess : Process watcher (fun _ => scripted) 0 calls fun _ => last := hprocess
  have hforces : calls.countP Call.forces = 2 ^ 64 := by
    have hused := hsound.used_le
    have hnone : scripted.generator.used = 0 := rfl
    rw [hnone] at hcount
    change 4096 * calls.countP Call.forces + last.generator.used = _ at hcount
    omega
  have hspeaks := hprocess.countP_speaks hinsists (Nat.zero_mod _).symm hends
  have hticks : ticks (fun _ : Unit => last) = 0 := by
    have hmodulo := hprocess.ticks_modEq
    have hnone : ticks (fun _ : Unit => scripted) = 0 := rfl
    have hone : ticks (fun _ : Unit => last) = last.stats.forcedTicks.toNat :=
      Finset.sum_singleton _ _
    have hwidth := last.stats.forcedTicks.toNat_lt
    rw [hnone, hforces, Nat.ModEq] at hmodulo
    omega
  rw [hforces] at hspeaks
  refine ⟨hinsists, _, hprocess, hends, hforces, hticks, ?_, ?_⟩
  · omega
  · omega

end Ticks

end Mint

end TokenMint
