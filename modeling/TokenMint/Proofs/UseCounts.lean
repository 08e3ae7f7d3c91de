import TokenMint.Proofs.Rounds

/-!
# Use counts

A place that logs every so often is counted apart from all others, by the text of its
file and its line.  Nothing but its own uses moves its count, and its count alone
decides whether the targets are consulted about a use.
-/

namespace TokenMint.Log

open Effect

/-- What a site is counted by. -/
def Site.place (site : Site) : Bytes × Nat :=
  (site.file.getD [], site.line)

/-- One use of a site: the question whether an entry is wanted, asked for a new logger or
for its own sake. -/
structure Query where
  site : Site
  every : Nat
  level : Level
  forLogger : Bool
deriving DecidableEq

namespace Query

/-- A logger needs a known site, and has to log now and then. -/
def isLawful (query : Query) : Bool :=
  !query.forLogger || !(!query.site.isKnown || query.every == 0)

/-- Ask the question. -/
def put (query : Query) : Logging Bool :=
  if query.forLogger then do
    return (← Logger.start query.site query.every query.level).isActive
  else wants query.site query.every query.level

/-- Whether a use moves the count of a site. -/
def counts (site : Site) (query : Query) : Bool :=
  query.site.place = site.place ∧ query.level < Level.debugFatal ∧ 1 < query.every

/-- A use passes: it is counted, and the targets are consulted. -/
def Passes (query : Query) (log : Log) : Prop :=
  ∃ wanted events,
    query.put log = (.ok wanted, (log.used query.site query.every).extend events) ∧
      Consulted query.site query.level log.targets log.journal wanted events

/-- A use is passed over: it is counted, and nobody is asked. -/
def IsPassedOver (query : Query) (log : Log) : Prop :=
  query.put log = (.ok false, log.used query.site query.every)

end Query

/-- What a process does with its log, apart from what it may read there. -/
inductive Action where
  | put (query : Query)
  /-- Log an entry, at the end of a logger or without one. -/
  | write (entry : Entry)
  | register (change : Registration)
  | setDebug (debug : Bool)
  | setStamp (stamp : Stamp)

namespace Action

def run : Action → Logging Unit
  | .put query => do let _ ← query.put
  | .write entry => Log.write entry
  | .register change => modify fun log => log.register change
  | .setDebug debug => modify fun log => log.setDebug debug
  | .setStamp stamp => modify fun log => { log with stamp }

/-- Whether an action moves the count of a site. -/
def counts (site : Site) : Action → Bool
  | .put query => query.counts site
  | _ => false

end Action

/-- A process performs these actions and goes on after each of them: with the answer, or
with a fault that its caller catches. -/
inductive Proceeds : Log → List Action → Log → Prop where
  | nil (log : Log) : Proceeds log [] log
  | cons {log between last : Log} {action : Action} {rest : List Action}
      {outcome : Except Stop Unit} (haction : action.run log = (outcome, between))
      (hgoes : outcome ≠ .error .terminated) (hrest : Proceeds between rest last) :
      Proceeds log (action :: rest) last

section Counts

variable {site other : Site} {every : Nat} {log : Log}

theorem usesAt_used_of_same (hplace : other.place = site.place) :
    (log.used other every).usesAt site = (log.usesAt site + 1) % every := by
  have hsame : ∀ log : Log, log.usesAt site = log.usesAt other := by
    intro log
    exact congrArg (fun place => (log.uses.find? place).getD 0) hplace.symm
  rw [hsame, hsame, usesAt_used]

theorem usesAt_used_of_other (hplace : other.place ≠ site.place) :
    (log.used other every).usesAt site = log.usesAt site :=
  congrArg (Option.getD · 0) (Table.find?_insert_of_ne log.uses hplace.symm _)

/-- Whatever the targets do, a question moves one count at most, and for the rest only the
journal changes. -/
theorem wants_apply (site : Site) (every : Nat) (level : Level) (log : Log) :
    ∃ outcome events, wants site every level log =
      (outcome,
        (if level < Level.debugFatal ∧ 1 < every then log.used site every else log).extend
          events) := by
  by_cases hlevel : level < Level.debugFatal
  · have hask : ∀ log : Log, ∃ outcome events,
        askAny site level log.targets log = (outcome, log.extend events) := by
      intro log
      obtain ⟨events, ⟨wanted, hok⟩ | ⟨fault, -, herror⟩⟩ :=
        askAny_raisesOnly site level log.targets log
      · exact ⟨_, events, hok⟩
      · exact ⟨_, events, herror⟩
    by_cases hevery : 1 < every
    · rw [if_pos ⟨hlevel, hevery⟩]
      by_cases hfirst : log.usesAt site = 0
      · rw [wants_of_first hevery (Int.not_le.mpr hlevel) hfirst]
        exact hask (log.used site every)
      · rw [wants_of_later hevery (Int.not_le.mpr hlevel) hfirst]
        exact ⟨_, [], by rw [extend_nil]⟩
    · rw [if_neg (fun hcounted => hevery hcounted.2), wants, if_neg (Int.not_le.mpr hlevel),
        if_neg hevery, bind_of_ok (get_apply log)]
      exact hask log
  · rw [if_neg (fun hcounted => hlevel hcounted.1),
      wants_of_debugFatal site every (Int.not_lt.mp hlevel)]
    exact ⟨_, [], by rw [extend_nil]⟩

theorem write_extends (entry : Entry) (log : Log) :
    ∃ outcome events, Log.write entry log = (outcome, log.extend events) := by
  obtain ⟨events, hok | ⟨fault, -, herror⟩⟩ := dispatch_answers entry log
  · exact ⟨_, events, write_of_ok hok⟩
  · exact ⟨_, events, write_of_error herror⟩

end Counts

namespace Query

variable {query : Query} {site : Site}

theorem put_of_lawful (hlawful : query.isLawful = true) (log : Log) :
    query.put log = wants query.site query.every query.level log := by
  rw [put]
  split
  case isTrue hlogger =>
    have hknown : (!query.site.isKnown || query.every == 0) = false := by
      simpa [isLawful, hlogger] using hlawful
    rcases hwants : wants query.site query.every query.level log with ⟨outcome, after⟩
    cases outcome with
    | ok wanted =>
        rw [bind_of_ok (Logger.start_of_wants hknown hwants)]
        cases wanted with
        | true => rfl
        | false => rfl
    | error stop => exact bind_of_error (Logger.start_of_stop hknown hwants)
  case isFalse => rfl

/-- An unlawful logger ends the process before anything is counted. -/
theorem put_of_unlawful (hunlawful : query.isLawful = false) (log : Log) :
    query.put log = (.error .terminated, log) := by
  rw [isLawful, Bool.or_eq_false_iff, Bool.not_eq_false', Bool.not_eq_false'] at hunlawful
  rw [put, if_pos hunlawful.1]
  exact bind_of_error (Logger.start_of_unknown hunlawful.2)

theorem usesAt_put_of_counts (hlawful : query.isLawful = true) (hcounts : query.counts site = true)
    (log : Log) : (query.put log).2.usesAt site = (log.usesAt site + 1) % query.every := by
  obtain ⟨hplace, hcounted⟩ := of_decide_eq_true hcounts
  obtain ⟨outcome, events, hwants⟩ := wants_apply query.site query.every query.level log
  rw [put_of_lawful hlawful, hwants, if_pos hcounted, usesAt_extend, usesAt_used_of_same hplace]

theorem usesAt_put_of_not_counts (hcounts : query.counts site = false) (log : Log) :
    (query.put log).2.usesAt site = log.usesAt site := by
  cases hlawful : query.isLawful with
  | false => rw [put_of_unlawful hlawful]
  | true =>
      obtain ⟨outcome, events, hwants⟩ := wants_apply query.site query.every query.level log
      rw [put_of_lawful hlawful, hwants, usesAt_extend]
      split
      case isTrue hcounted =>
        apply usesAt_used_of_other
        intro hplace
        exact of_decide_eq_false hcounts ⟨hplace, hcounted⟩
      case isFalse => rfl

end Query

namespace Action

theorem run_put (query : Query) (log : Log) :
    (put query).run log = ((query.put log).1.map fun _ => (), (query.put log).2) := by
  rcases hput : query.put log with ⟨outcome, after⟩
  cases outcome with
  | ok wanted => exact bind_of_ok hput
  | error stop => exact bind_of_error hput

theorem usesAt_run_of_not_counts {action : Action} {site : Site}
    (hcounts : action.counts site = false) (log : Log) :
    (action.run log).2.usesAt site = log.usesAt site := by
  cases action with
  | put query =>
      rw [run_put]
      exact query.usesAt_put_of_not_counts hcounts log
  | write entry =>
      obtain ⟨outcome, events, hwrite⟩ := write_extends entry log
      rw [run, hwrite, usesAt_extend]
  | register change =>
      cases change with
      | add target => rfl
      | remove id => rfl
  | setDebug debug => rfl
  | setStamp stamp => rfl

theorem usesAt_run_of_counts {query : Query} {site : Site} (hcounts : query.counts site = true)
    (log : Log) (hgoes : ((put query).run log).1 ≠ .error .terminated) :
    ((put query).run log).2.usesAt site = (log.usesAt site + 1) % query.every := by
  rw [run_put] at hgoes ⊢
  cases hlawful : query.isLawful with
  | false =>
      rw [Query.put_of_unlawful hlawful] at hgoes
      exact absurd rfl hgoes
  | true => exact Query.usesAt_put_of_counts hlawful hcounts log

end Action

/-- The count of a site that always logs every so often in the same way is the number of
its uses, up to whole rounds. -/
theorem Proceeds.usesAt_eq {start log : Log} {actions : List Action} {site : Site}
    {every count : Nat} (hproceeds : Proceeds start actions log)
    (hfixed : ∀ query, Action.put query ∈ actions → query.counts site = true →
      query.every = every)
    (hcount : start.usesAt site = count % every) :
    log.usesAt site = (count + actions.countP (Action.counts site)) % every := by
  induction hproceeds generalizing count with
  | nil => exact hcount
  | @cons log between last action rest outcome haction hgoes hrest ih =>
      have hrestFixed : ∀ query, Action.put query ∈ rest → query.counts site = true →
          query.every = every :=
        fun query hmem => hfixed query (List.mem_cons_of_mem action hmem)
      rw [List.countP_cons]
      cases hcounts : action.counts site with
      | false =>
          have hkept := Action.usesAt_run_of_not_counts hcounts log
          rw [haction] at hkept
          exact ih hrestFixed (hkept.trans hcount)
      | true =>
          cases action with
          | put query =>
              have hmoved := Action.usesAt_run_of_counts hcounts log (haction ▸ hgoes)
              rw [haction, hcount, hfixed query List.mem_cons_self hcounts,
                Nat.mod_add_mod] at hmoved
              rw [if_pos rfl, Nat.add_comm (rest.countP _), ← Nat.add_assoc]
              exact ih hrestFixed hmoved
          | _ => contradiction

/-- After any actions of a process, the next use of a site that logs every so often passes
exactly if it begins a new round of the uses of this site; otherwise nobody is asked.
Uses of other sites, of places that log every time, and at the fatal levels do not move
the count, and those at the fatal levels are always wanted. -/
theorem every_nth_use_passes {start log : Log} {earlier : List Action} {query : Query}
    (hproceeds : Proceeds start earlier log) (hstart : start.usesAt query.site = 0)
    (hlawful : query.isLawful = true) (hlevel : query.level < Level.debugFatal)
    (hevery : 1 < query.every)
    (hfixed : ∀ other, Action.put other ∈ earlier → other.counts query.site = true →
      other.every = query.every)
    (hcontained : ∀ target ∈ log.targets, target.Contained) :
    (if earlier.countP (Action.counts query.site) % query.every = 0 then query.Passes log
      else query.IsPassedOver log) ∧
    (∀ other : Query,
      other.site.place ≠ query.site.place ∨ other.every ≤ 1 ∨ Level.debugFatal ≤ other.level →
        ∀ before, (other.put before).2.usesAt query.site = before.usesAt query.site) ∧
    ∀ other : Query, other.isLawful = true → Level.debugFatal ≤ other.level →
      ∀ before, other.put before = (.ok true, before) := by
  have hcount := hproceeds.usesAt_eq hfixed (hstart.trans (Nat.zero_mod query.every).symm)
  rw [Nat.zero_add] at hcount
  have hquiet := Int.not_le.mpr hlevel
  refine ⟨?_, ?_, ?_⟩
  · split
    case isTrue hround =>
      let counted := log.used query.site query.every
      obtain ⟨wanted, events, hasked, hconsulted⟩ :=
        askAny_consults hcontained query.site query.level counted
      refine ⟨wanted, events, ?_, hconsulted⟩
      rw [Query.put_of_lawful hlawful, wants_of_first hevery hquiet (hcount.trans hround)]
      exact hasked
    case isFalse hwithin =>
      rw [Query.IsPassedOver, Query.put_of_lawful hlawful]
      exact wants_of_later hevery hquiet (hcount ▸ hwithin)
  · intro other hother
    apply Query.usesAt_put_of_not_counts
    apply decide_eq_false
    rintro ⟨hplace, hbelow, hseldom⟩
    rcases hother with helsewhere | halways | hfatal
    · exact helsewhere hplace
    · exact Nat.not_lt.mpr halways hseldom
    · exact Int.not_lt.mpr hfatal hbelow
  · intro other hother hfatal before
    rw [Query.put_of_lawful hother]
    exact wants_of_debugFatal other.site other.every hfatal before

/-- The third use of a site that logs every second time passes, whatever a target that
cannot be asked, another site and a fatal level have to do with the log in between. -/
theorem third_use_passes :
    let shy := Target.scripted (ascii "shy")
      { Target.Script.plain with onWants := some (.failure (ascii "no")) }
    let query : Query := ⟨Site.of "f.cc" 7, 2, Level.info, true⟩
    let history : List Action :=
      [.put { query with level := Level.verbose 1, forLogger := false }, .register (.add shy),
        .put { query with site := Site.of "g.cc" 7 }, .put { query with level := Level.fatal },
        .put query]
    ∃ log, Proceeds (fresh default) history log ∧
      history.countP (Action.counts query.site) = 2 ∧ query.Passes log := by
  intro shy query history
  have hproceeds : ∃ log, Proceeds (fresh default) history log ∧
      log.targets = [Target.standardError, shy] :=
    ⟨_, .cons rfl nofun (.cons rfl nofun (.cons rfl nofun (.cons rfl nofun (.cons rfl nofun
      (.nil _))))), rfl⟩
  obtain ⟨log, hproceeds, htargets⟩ := hproceeds
  have hcontained : ∀ target ∈ log.targets, target.Contained := by
    have hstandard : Target.standardError.Contained := Target.ofPredicate_contained _ _
    have hshy : shy.Contained := Target.scripted_contained _ (by decide) nofun nofun
    simp [htargets, hstandard, hshy]
  have hfixed : ∀ other, Action.put other ∈ history → other.counts query.site = true →
      other.every = query.every := by
    simp [history, Query.counts, query, Site.place, Site.of]
  have hcount : history.countP (Action.counts query.site) = 2 := by decide
  have hround : 2 % query.every = 0 := by decide
  have hpasses := (every_nth_use_passes hproceeds rfl rfl (by decide) (by decide) hfixed
    hcontained).1
  rw [hcount, if_pos hround] at hpasses
  exact ⟨log, hproceeds, hcount, hpasses⟩

end TokenMint.Log
