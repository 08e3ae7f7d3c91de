import TokenMint.Proofs.Consultation

/-!
# Rounds

A place that logs every so often goes through rounds.  The first use of a round asks
the targets whether they want the message, and the others pass in silence.  Nothing is
required of the targets; a message that comes to its end has gone to all who insist on
it.
-/

namespace TokenMint.Log

open Effect

section Uses

variable (site : Site) (every : Nat) (log : Log)

/-- How far a place is into its round. -/
def usesAt : Nat :=
  (log.uses.find? (site.file.getD [], site.line)).getD 0

/-- The log after one more use of a place. -/
def used : Log :=
  { log with
    uses := log.uses.insert (site.file.getD [], site.line) ((log.usesAt site + 1) % every) }

@[simp]
theorem usesAt_used : (log.used site every).usesAt site = (log.usesAt site + 1) % every := by
  rw [usesAt, used, Table.find?_insert_self]
  rfl

@[simp]
theorem usesAt_extend (events : Journal) : (log.extend events).usesAt site = log.usesAt site :=
  rfl

theorem countUse_apply :
    countUse site every log = (.ok (log.usesAt site == 0), log.used site every) :=
  rfl

end Uses

section Wants

variable {site : Site} {every : Nat} {level : Level} {log : Log}

/-- The first use of a round asks the targets. -/
theorem wants_of_first (hevery : 1 < every) (hlevel : ¬ Level.debugFatal ≤ level)
    (hfirst : log.usesAt site = 0) :
    wants site every level log = askAny site level log.targets (log.used site every) := by
  have hcount : countUse site every log = (.ok true, log.used site every) := by
    rw [countUse_apply, hfirst]
    rfl
  rw [wants, if_neg hlevel, if_pos hevery, bind_of_ok hcount, if_pos rfl]
  exact (bind_of_ok (get_apply (log.used site every))).trans rfl

/-- The other uses of a round are wanted by no one. -/
theorem wants_of_later (hevery : 1 < every) (hlevel : ¬ Level.debugFatal ≤ level)
    (hlater : log.usesAt site ≠ 0) :
    wants site every level log = (.ok false, log.used site every) := by
  have hcount : countUse site every log = (.ok false, log.used site every) := by
    rw [countUse_apply, beq_false_of_ne hlater]
  rw [wants, if_neg hlevel, if_pos hevery, bind_of_ok hcount, if_neg Bool.false_ne_true]
  rfl

end Wants

/-- A target wants every entry of this place and level, whatever has happened. -/
def Target.Insists (target : Target) (site : Site) (level : Level) : Prop :=
  ∀ journal, target.wants journal site level = .ok true

/-- An entry goes once to each of some targets, in their order, and to all that insist
on it. -/
def Reaches (entry : Entry) (targets : List Target) (receipts : Journal) : Prop :=
  ∃ takers : List Target, takers.Sublist targets ∧
    (∀ target ∈ targets, target.Insists entry.site entry.level → target ∈ takers) ∧
    receipts = takers.map fun target => .delivered target.id entry

section Reaches

variable {entry : Entry} {target : Target} {rest : List Target} {receipts : Journal}

theorem Reaches.nil : Reaches entry [] [] :=
  ⟨[], List.Sublist.refl [], fun _ hmem => absurd hmem List.not_mem_nil, rfl⟩

theorem Reaches.take (hrest : Reaches entry rest receipts) :
    Reaches entry (target :: rest) (.delivered target.id entry :: receipts) := by
  obtain ⟨takers, hsub, hinsist, rfl⟩ := hrest
  refine ⟨target :: takers, hsub.cons_cons target, ?_, rfl⟩
  intro other hmem hinsists
  rcases List.mem_cons.mp hmem with rfl | hmem
  · exact List.mem_cons_self
  · exact List.mem_cons_of_mem target (hinsist other hmem hinsists)

theorem Reaches.pass (hpass : ¬ target.Insists entry.site entry.level)
    (hrest : Reaches entry rest receipts) : Reaches entry (target :: rest) receipts := by
  obtain ⟨takers, hsub, hinsist, rfl⟩ := hrest
  refine ⟨takers, hsub.cons target, ?_, rfl⟩
  intro other hmem hinsists
  rcases List.mem_cons.mp hmem with rfl | hmem
  · exact absurd hinsists hpass
  · exact hinsist other hmem hinsists

end Reaches

section Levels

variable {level : Level}

theorem not_debugFatal_le (hlevel : ¬ Level.error ≤ level) : ¬ Level.debugFatal ≤ level :=
  fun hle => hlevel (Int.le_trans (by decide) hle)

theorem not_isFatal {debug : Bool} (hlevel : ¬ Level.error ≤ level) :
    ¬ isFatal debug level = true :=
  fun hfatal => not_debugFatal_le hlevel (le_of_isFatal hfatal)

end Levels

section Answers

variable {site : Site} {level : Level} {entry : Entry} {target : Target} {targets : List Target}
  {log after : Log} {wanted : Bool}

/-- One target that insists is enough for a yes. -/
theorem Consulted.wanted_of_insists {journal events : Journal}
    (hconsulted : Consulted site level targets journal wanted events)
    (hinsist : ∃ target ∈ targets, target.Insists site level) : wanted = true := by
  obtain ⟨target, hmem, hinsists⟩ := hinsist
  obtain ⟨earlier, later, htargets⟩ := List.append_of_mem hmem
  exact hconsulted.wanted_iff.mpr ⟨earlier, target, later, htargets, hinsists _⟩

/-- A target is handed an entry or does not insist on it. -/
theorem hand_apply (entry : Entry) (target : Target) (log : Log) :
    ∃ outcome events,
      (do if ← ask target entry.site entry.level then deliver target entry : Logging Unit) log =
          (outcome, log.extend events) ∧
        (events.receipts = [.delivered target.id entry] ∨
          events.receipts = [] ∧ ¬ target.Insists entry.site entry.level) := by
  have hask := ask_apply target entry.site entry.level log
  cases hwants : target.wants log.journal entry.site entry.level with
  | error fault =>
      rw [hwants] at hask
      refine ⟨_, _, bind_of_error hask, Or.inr ⟨rfl, ?_⟩⟩
      intro hinsists
      rw [hinsists] at hwants
      contradiction
  | ok answer =>
      rw [hwants] at hask
      cases answer with
      | true =>
          have hdeliver := deliver_apply target entry
            (log.extend [.asked target.id entry.site entry.level])
          rw [extend_extend] at hdeliver
          exact ⟨_, _, (bind_of_ok hask).trans hdeliver, Or.inl rfl⟩
      | false =>
          refine ⟨_, _, bind_of_ok hask, Or.inr ⟨rfl, ?_⟩⟩
          intro hinsists
          rw [hinsists] at hwants
          exact absurd (Except.ok.inj hwants) (by decide)

theorem offer_of_ok (hoffer : offer entry target log = (.ok (), after)) :
    ∃ events, after = log.extend events ∧
      (events.receipts = [.delivered target.id entry] ∨
        events.receipts = [] ∧ ¬ target.Insists entry.site entry.level) := by
  obtain ⟨outcome, events, hhand, hreceipts⟩ := hand_apply entry target log
  rcases cases_of_guarded_ok hoffer with hdone | ⟨fault, before, hfault, -, rfl⟩
  · rw [hhand] at hdone
    cases hdone
    exact ⟨events, rfl, hreceipts⟩
  · rw [hhand] at hfault
    cases hfault
    refine ⟨events ++ [.reported fault.message.untilNul], extend_extend log _ _, ?_⟩
    have hnothing : Journal.receipts [.reported fault.message.untilNul] = [] := rfl
    rw [Journal.receipts_append, hnothing, List.append_nil]
    exact hreceipts

theorem forM_offer_of_ok (hoffers : targets.forM (offer entry) log = (.ok (), after)) :
    ∃ events, after = log.extend events ∧ Reaches entry targets events.receipts := by
  induction targets generalizing log with
  | nil =>
      cases hoffers
      exact ⟨[], (extend_nil _).symm, .nil⟩
  | cons target rest ih =>
      obtain ⟨_, between, hfirst, hrest⟩ := exists_of_bind_ok hoffers
      obtain ⟨first, rfl, hreceipts⟩ := offer_of_ok hfirst
      obtain ⟨second, rfl, hreaches⟩ := ih hrest
      refine ⟨first ++ second, extend_extend log first second, ?_⟩
      rw [Journal.receipts_append]
      rcases hreceipts with htaken | ⟨hpassed, hpass⟩
      · rw [htaken]
        exact hreaches.take
      · rw [hpassed]
        exact hreaches.pass hpass

/-- An entry below the errors is handed out and not flushed. -/
theorem dispatch_of_ok (hvalid : entry.isValid = true) (hlevel : ¬ Level.error ≤ entry.level)
    (hdispatch : dispatch entry log = (.ok (), after)) :
    ∃ events, after = log.extend events ∧ Reaches entry log.targets events.receipts := by
  rw [dispatch_apply] at hdispatch
  obtain ⟨_, between, hhand, hflush⟩ := exists_of_bind_ok hdispatch
  rw [handOut, if_pos hvalid] at hhand
  rw [flushAfter, if_neg hlevel] at hflush
  cases hflush
  exact forM_offer_of_ok hhand

theorem write_of_quiet (hvalid : entry.isValid = true) (hlevel : ¬ Level.error ≤ entry.level)
    (hwrite : write entry log = (.ok (), after)) :
    ∃ events, after = log.extend events ∧ Reaches entry log.targets events.receipts := by
  obtain ⟨_, between, hdispatch, hend⟩ := exists_of_bind_ok hwrite
  rw [bind_of_ok (get_apply between), if_neg (not_isFatal hlevel)] at hend
  cases hend
  exact dispatch_of_ok hvalid hlevel hdispatch

end Answers

section Say

variable {site : Site} {every : Nat} {level : Level} {log after : Log} (parts : List Part)

theorem isKnown_and_goes (hknown : site.isKnown = true) (hevery : 1 < every) :
    (!site.isKnown || every == 0) = false := by
  simp [hknown, Nat.ne_of_gt (Nat.lt_of_succ_lt hevery)]

/-- Within a round a message is forgotten, and no target is asked. -/
theorem sayEvery_of_later (hknown : site.isKnown = true) (hevery : 1 < every)
    (hlevel : ¬ Level.error ≤ level) (hlater : log.usesAt site ≠ 0) :
    sayEvery site every level parts log = (.ok (), log.used site every) := by
  rw [sayEvery_of_wants parts (isKnown_and_goes hknown hevery)
    (wants_of_later hevery (not_debugFatal_le hlevel) hlater), if_neg Bool.false_ne_true]

/-- A message that is put to the targets comes to its end, unless a fault of a target
escapes.  Only the journal changes after the question. -/
theorem sayEvery_of_asked {asking : Log} (hsite : (!site.isKnown || every == 0) = false)
    (hlevel : ¬ Level.error ≤ level)
    (hwants : wants site every level log = askAny site level asking.targets asking) :
    ∃ events,
      sayEvery site every level parts log = (.ok (), asking.extend events) ∨
      ∃ fault, Escapes asking.targets fault ∧
        sayEvery site every level parts log = (.error (.raised fault), asking.extend events) := by
  obtain ⟨asked, ⟨wanted, hasked⟩ | ⟨fault, hescapes, hasked⟩⟩ :=
    askAny_raisesOnly site level asking.targets asking
  · rw [hasked] at hwants
    rw [sayEvery_of_wants parts hsite hwants]
    cases wanted with
    | false => exact ⟨asked, Or.inl rfl⟩
    | true =>
        let entry : Entry := ⟨site, level, asking.stamp, (Message.blank.addAll parts).text⟩
        have hharmless : ¬ isFatal (asking.extend asked).debug entry.level = true :=
          not_isFatal hlevel
        obtain ⟨events, hwrite⟩ := write_answers entry hharmless
        rw [extend_extend] at hwrite
        exact ⟨asked ++ events, hwrite⟩
  · exact ⟨asked, Or.inr ⟨fault, hescapes, sayEvery_of_stop parts hsite (hwants.trans hasked)⟩⟩

/-- Whatever becomes of a message, its place has been used once more, and for the rest
only the journal has changed.  The message comes to its end, unless a fault of a target
escapes. -/
theorem sayEvery_answers (hknown : site.isKnown = true) (hevery : 1 < every)
    (hlevel : ¬ Level.error ≤ level) (log : Log) :
    ∃ events,
      sayEvery site every level parts log = (.ok (), (log.used site every).extend events) ∨
      ∃ fault, Escapes log.targets fault ∧
        sayEvery site every level parts log =
          (.error (.raised fault), (log.used site every).extend events) := by
  by_cases hfirst : log.usesAt site = 0
  · exact sayEvery_of_asked parts (isKnown_and_goes hknown hevery) hlevel
      (wants_of_first hevery (not_debugFatal_le hlevel) hfirst)
  · refine ⟨[], Or.inl ?_⟩
    rw [sayEvery_of_later parts hknown hevery hlevel hfirst, extend_nil]

/-- A place that logs every time uses no count, and its message comes to its end unless a
fault of a target escapes. -/
theorem say_answers (hknown : site.isKnown = true) (hlevel : ¬ Level.error ≤ level) (log : Log) :
    ∃ events,
      say site level parts log = (.ok (), log.extend events) ∨
      ∃ fault, Escapes log.targets fault ∧
        say site level parts log = (.error (.raised fault), log.extend events) := by
  have hsite : (!site.isKnown || 1 == 0) = false := by
    simp [hknown]
  exact sayEvery_of_asked parts hsite hlevel (wants_once site (not_debugFatal_le hlevel) log)

/-- At the start of a round a message goes to all who insist on it, and it is the only
one that goes to anyone. -/
theorem sayEvery_of_first (hknown : site.isKnown = true) (hevery : 1 < every)
    (hlevel : ¬ Level.error ≤ level) (hfirst : log.usesAt site = 0)
    (hinsist : ∃ target ∈ log.targets, target.Insists site level)
    (hsaid : sayEvery site every level parts log = (.ok (), after)) :
    ∃ events, after = (log.used site every).extend events ∧
      Reaches ⟨site, level, log.stamp, (Message.blank.addAll parts).text⟩ log.targets
        events.receipts := by
  have hsite := isKnown_and_goes hknown hevery
  let entry : Entry := ⟨site, level, log.stamp, (Message.blank.addAll parts).text⟩
  have hvalid : entry.isValid = true := hknown
  rcases hwants : wants site every level log with ⟨outcome, between⟩
  cases outcome with
  | error stop =>
      rw [sayEvery_of_stop parts hsite hwants] at hsaid
      cases hsaid
  | ok wanted =>
      rw [sayEvery_of_wants parts hsite hwants] at hsaid
      rw [wants_of_first hevery (not_debugFatal_le hlevel) hfirst] at hwants
      obtain ⟨asked, rfl, hconsulted⟩ := askAny_of_ok hwants
      rw [hconsulted.wanted_of_insists hinsist, if_pos rfl] at hsaid
      obtain ⟨events, rfl, hreaches⟩ := write_of_quiet hvalid hlevel hsaid
      refine ⟨asked ++ events, extend_extend _ asked events, ?_⟩
      rw [Journal.receipts_append, hconsulted.receipts_eq]
      exact hreaches

end Say

end TokenMint.Log
