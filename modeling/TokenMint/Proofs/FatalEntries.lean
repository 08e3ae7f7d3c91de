import TokenMint.Proofs.Loggers
import TokenMint.Proofs.TargetCalls

/-!
# Fatal entries

A fatal entry ends the process behind its dispatch.  The dispatch answers unless a
target raises a fault that no guard contains; that fault then takes the place of
the end.
-/

namespace TokenMint

namespace Log

open Effect

/-- A computation adds to the journal alone, and answers or raises one of these
faults. -/
def RaisesOnly {α : Type} (allowed : Fault → Prop) (act : Logging α) : Prop :=
  ∀ log, ∃ events, (∃ value, act log = (.ok value, log.extend events)) ∨
    ∃ fault, allowed fault ∧ act log = (.error (.raised fault), log.extend events)

section RaisesOnly

variable {α β : Type} {allowed : Fault → Prop} {act : Logging α} {next : α → Logging β}

theorem RaisesOnly.pure (value : α) : RaisesOnly allowed (pure value : Logging α) := by
  intro log
  exact ⟨[], Or.inl ⟨value, by simp⟩⟩

theorem RaisesOnly.mono {other : Fault → Prop} (hact : RaisesOnly allowed act)
    (hle : ∀ fault, allowed fault → other fault) :
    RaisesOnly other act := by
  intro log
  obtain ⟨events, hok | ⟨fault, hfault, herror⟩⟩ := hact log
  · exact ⟨events, Or.inl hok⟩
  · exact ⟨events, Or.inr ⟨fault, hle fault hfault, herror⟩⟩

theorem RaisesOnly.bind (hact : RaisesOnly allowed act)
    (hnext : ∀ value, RaisesOnly allowed (next value)) : RaisesOnly allowed (act >>= next) := by
  intro log
  obtain ⟨first, ⟨value, hact⟩ | ⟨fault, hfault, hact⟩⟩ := hact log
  · obtain ⟨second, hsecond⟩ := hnext value (log.extend first)
    refine ⟨first ++ second, ?_⟩
    rw [bind_of_ok hact, ← extend_extend]
    exact hsecond
  · exact ⟨first, Or.inr ⟨fault, hfault, bind_of_error hact⟩⟩

theorem RaisesOnly.forM {targets : List Target} {step : Target → Logging Unit}
    (hstep : ∀ target ∈ targets, RaisesOnly allowed (step target)) :
    RaisesOnly allowed (targets.forM step) := by
  induction targets with
  | nil => exact .pure ()
  | cons target rest ih =>
      rw [List.forall_mem_cons] at hstep
      exact hstep.1.bind fun _ => ih hstep.2

/-- A guard lets only those faults through that cannot be contained. -/
theorem RaisesOnly.guarded {call : Logging α} (otherwise : α) (hcall : RaisesOnly allowed call) :
    RaisesOnly (fun fault => allowed fault ∧ fault.isContainable = false)
      (guarded otherwise call) := by
  intro log
  obtain ⟨events, ⟨value, hcall⟩ | ⟨fault, hfault, hcall⟩⟩ := hcall log
  · exact ⟨events, Or.inl ⟨value, guarded_of_ok hcall⟩⟩
  · cases hcontainable : fault.isContainable with
    | true =>
        refine ⟨events ++ [.reported fault.message.untilNul], Or.inl ⟨otherwise, ?_⟩⟩
        rw [guarded_of_contained hcall hcontainable, extend_extend]
    | false =>
        refine ⟨events, Or.inr ⟨fault, ⟨hfault, hcontainable⟩, ?_⟩⟩
        exact guarded_of_foreign hcall hcontainable

end RaisesOnly

section Target

variable (target : Target)

theorem ask_raisesOnly (site : Site) (level : Level) :
    RaisesOnly target.Raises (ask target site level) := by
  intro log
  refine ⟨[.asked target.id site level], ?_⟩
  rw [ask_apply]
  cases hwants : target.wants log.journal site level with
  | ok wanted => exact Or.inl ⟨wanted, rfl⟩
  | error fault => exact Or.inr ⟨fault, .wants log.journal site level hwants, rfl⟩

theorem deliver_raisesOnly (entry : Entry) : RaisesOnly target.Raises (deliver target entry) := by
  intro log
  refine ⟨[.delivered target.id entry], ?_⟩
  rw [deliver_apply]
  cases hdeliver : target.deliver log.journal entry with
  | ok => exact Or.inl ⟨(), rfl⟩
  | error fault => exact Or.inr ⟨fault, .deliver log.journal entry hdeliver, rfl⟩

theorem flush_raisesOnly : RaisesOnly target.Raises (flush target) := by
  intro log
  refine ⟨[.flushed target.id], ?_⟩
  rw [flush_apply]
  cases hflush : target.flush log.journal with
  | ok => exact Or.inl ⟨(), rfl⟩
  | error fault => exact Or.inr ⟨fault, .flush log.journal hflush, rfl⟩

theorem offer_raisesOnly (entry : Entry) :
    RaisesOnly (fun fault => target.Raises fault ∧ fault.isContainable = false)
      (offer entry target) := by
  apply RaisesOnly.guarded
  apply (ask_raisesOnly target entry.site entry.level).bind
  intro wanted
  cases wanted with
  | true => exact deliver_raisesOnly target entry
  | false => exact .pure ()

end Target

/-- A fault that one of these targets raises and that no guard contains. -/
def Escapes (targets : List Target) (fault : Fault) : Prop :=
  (∃ target ∈ targets, target.Raises fault) ∧ fault.isContainable = false

theorem not_escapes {targets : List Target} (hcontained : ∀ target ∈ targets, target.Contained)
    (fault : Fault) : ¬ Escapes targets fault := by
  rintro ⟨⟨target, hmem, hraises⟩, hforeign⟩
  rw [hcontained target hmem fault hraises] at hforeign
  contradiction

theorem Escapes.cons {target : Target} {targets : List Target} {fault : Fault}
    (hescapes : Escapes targets fault) : Escapes (target :: targets) fault := by
  obtain ⟨⟨other, hmem, hraises⟩, hforeign⟩ := hescapes
  exact ⟨⟨other, List.mem_cons_of_mem target hmem, hraises⟩, hforeign⟩

/-- A call comes to this answer, unless a fault escapes that one of these targets raises
and no guard contains. -/
def AnswersOrEscapes {α : Type} (targets : List Target) (answer : α) (outcome : Except Stop α) :
    Prop :=
  outcome = .ok answer ∨ ∃ fault, Escapes targets fault ∧ outcome = .error (.raised fault)

theorem AnswersOrEscapes.answers {α : Type} {targets : List Target} {answer : α}
    {outcome : Except Stop α} (hanswers : AnswersOrEscapes targets answer outcome)
    (hcontained : ∀ target ∈ targets, target.Contained) : outcome = .ok answer := by
  rcases hanswers with hanswer | ⟨fault, hescapes, -⟩
  · exact hanswer
  · exact absurd hescapes (not_escapes hcontained fault)

theorem askAny_raisesOnly (site : Site) (level : Level) (targets : List Target) :
    RaisesOnly (Escapes targets) (askAny site level targets) := by
  induction targets with
  | nil => exact .pure false
  | cons target rest ih =>
      have hfirst : RaisesOnly (Escapes (target :: rest)) (guarded false (ask target site level)) :=
        ((ask_raisesOnly target site level).guarded false).mono fun fault hraises =>
          ⟨⟨target, List.mem_cons_self, hraises.1⟩, hraises.2⟩
      apply hfirst.bind
      intro wanted
      cases wanted with
      | true => exact .pure true
      | false => exact ih.mono fun fault hescapes => hescapes.cons

section Dispatch

variable (entry : Entry)

theorem handOut_raisesOnly (targets : List Target) :
    RaisesOnly (Escapes targets) (handOut entry targets) := by
  rw [handOut]
  split
  · apply RaisesOnly.forM
    intro target hmem
    exact (offer_raisesOnly target entry).mono fun fault hraises =>
      ⟨⟨target, hmem, hraises.1⟩, hraises.2⟩
  · exact .pure ()

theorem flushAfter_raisesOnly (targets : List Target) :
    RaisesOnly (Escapes targets) (flushAfter entry targets) := by
  rw [flushAfter]
  split
  · apply RaisesOnly.forM
    intro target hmem
    exact ((flush_raisesOnly target).guarded ()).mono fun fault hraises =>
      ⟨⟨target, hmem, hraises.1⟩, hraises.2⟩
  · exact .pure ()

/-- A dispatch answers, unless a fault of a target escapes it. -/
theorem dispatch_answers (log : Log) :
    ∃ events, dispatch entry log = (.ok (), log.extend events) ∨
      ∃ fault, Escapes log.targets fault ∧
        dispatch entry log = (.error (.raised fault), log.extend events) := by
  have hsteps : RaisesOnly (Escapes log.targets)
      (handOut entry log.targets >>= fun _ => flushAfter entry log.targets) :=
    (handOut_raisesOnly entry log.targets).bind fun _ => flushAfter_raisesOnly entry log.targets
  obtain ⟨events, ⟨value, hok⟩ | hescape⟩ := hsteps log
  · exact ⟨events, Or.inl ((dispatch_apply entry log).trans hok)⟩
  · refine ⟨events, Or.inr ?_⟩
    rw [dispatch_apply]
    exact hescape

/-- To write an entry that is not fatal answers, unless a fault of a target escapes. -/
theorem write_answers {log : Log} (hharmless : ¬ isFatal log.debug entry.level = true) :
    ∃ events, write entry log = (.ok (), log.extend events) ∨
      ∃ fault, Escapes log.targets fault ∧
        write entry log = (.error (.raised fault), log.extend events) := by
  obtain ⟨events, hok | ⟨fault, hescapes, herror⟩⟩ := dispatch_answers entry log
  · refine ⟨events, Or.inl ?_⟩
    rw [write_of_ok hok, extend_debug, if_neg hharmless]
  · exact ⟨events, Or.inr ⟨fault, hescapes, write_of_error herror⟩⟩

end Dispatch

/-- What becomes of a fatal entry: the end of the process, or a fault that has
escaped from one of these targets. -/
def EndsOrEscapes (targets : List Target) (outcome : Except Stop Unit) : Prop :=
  outcome = .error .terminated ∨
    ∃ fault, Escapes targets fault ∧ outcome = .error (.raised fault)

theorem EndsOrEscapes.ends {targets : List Target} {outcome : Except Stop Unit}
    (hends : EndsOrEscapes targets outcome)
    (hcontained : ∀ target ∈ targets, target.Contained) : outcome = .error .terminated := by
  rcases hends with hended | ⟨fault, hescapes, -⟩
  · exact hended
  · exact absurd hescapes (not_escapes hcontained fault)

theorem write_of_fatal {entry : Entry} {log : Log} (hfatal : isFatal log.debug entry.level = true) :
    EndsOrEscapes log.targets (write entry log).1 := by
  obtain ⟨events, hok | ⟨fault, hescapes, herror⟩⟩ := dispatch_answers entry log
  · rw [write_of_ok hok, extend_debug, if_pos hfatal]
    exact Or.inl rfl
  · rw [write_of_error herror]
    exact Or.inr ⟨fault, hescapes, rfl⟩

theorem sayEvery_of_fatal {log : Log} {level : Level} (hfatal : isFatal log.debug level = true)
    (site : Site) (every : Nat) (parts : List Part) :
    EndsOrEscapes log.targets (sayEvery site every level parts log).1 := by
  cases hsite : (!site.isKnown || every == 0) with
  | true =>
      rw [sayEvery_of_unknown parts hsite]
      exact Or.inl rfl
  | false =>
      rw [sayEvery_of_wants parts hsite (wants_of_debugFatal site every (le_of_isFatal hfatal) log),
        if_pos rfl]
      exact write_of_fatal hfatal

/-- A fatal entry never returns to whoever writes it.  The process ends, unless a
fault escapes that one of the targets has raised and that no guard contains. -/
theorem fatal_entry_never_returns (log : Log) {level : Level}
    (hfatal : isFatal log.debug level = true) :
    (∀ entry, entry.level = level → EndsOrEscapes log.targets (write entry log).1) ∧
      (∀ site every parts,
        EndsOrEscapes log.targets (sayEvery site every level parts log).1) ∧
      ((∀ target ∈ log.targets, target.Contained) →
        (∀ entry, entry.level = level → (write entry log).1 = .error .terminated) ∧
          ∀ site every parts, (sayEvery site every level parts log).1 = .error .terminated) := by
  have hwrite : ∀ entry, entry.level = level → EndsOrEscapes log.targets (write entry log).1 := by
    rintro entry rfl
    exact write_of_fatal hfatal
  refine ⟨hwrite, sayEvery_of_fatal hfatal, ?_⟩
  intro hcontained
  constructor
  · intro entry hlevel
    exact (hwrite entry hlevel).ends hcontained
  · intro site every parts
    exact (sayEvery_of_fatal hfatal site every parts).ends hcontained

/-- A target that takes every message that is not verbose and answers each flush with this fault. -/
def Target.failingFlush (fault : Fault) : Target :=
  scripted (ascii "t") { Script.plain with onFlush := some fault }

/-- A flush that fails for want of space does not keep a fatal entry from its end. -/
theorem contained_flush_ends_process :
    let log := (fresh default).addTarget (Target.failingFlush (.failure (ascii "full")))
    isFatal log.debug Level.fatal = true ∧
      (say (Site.of "f.cc" 1) Level.fatal ["dies"] log).1 = .error .terminated := by
  intro log
  have hfatal : isFatal log.debug Level.fatal = true := rfl
  have hcontained : ∀ target ∈ log.targets, target.Contained := by
    intro target hmem
    cases hmem with
    | head => exact Target.ofPredicate_contained _ _
    | tail _ hmem =>
        rw [List.mem_singleton.mp hmem]
        exact Target.scripted_contained _ nofun nofun (by decide)
  exact ⟨hfatal, ((fatal_entry_never_returns log hfatal).2.2 hcontained).2 _ 1 _⟩

/-- A flush that throws a bare number does: the number leaves the logger, and the
process goes on. -/
theorem foreign_flush_escapes :
    let log := (fresh default).addTarget (Target.failingFlush (.foreign 7))
    isFatal log.debug Level.fatal = true ∧
      (say (Site.of "f.cc" 1) Level.fatal ["dies"] log).1 = .error (.raised (.foreign 7)) :=
  ⟨rfl, rfl⟩

end Log

end TokenMint
