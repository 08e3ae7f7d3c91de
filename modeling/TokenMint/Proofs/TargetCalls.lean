import TokenMint.Log.Registry
import TokenMint.Proofs.Effects

/-!
# Calls to log targets

A call to a target is written down in the journal before the target answers.  Its
faults are contained and reported, or they escape.  Nothing but the journal changes
on the way.
-/

namespace TokenMint

namespace Log

open Effect

/-- The log with these events at the end of its journal. -/
def extend (log : Log) (events : Journal) : Log :=
  { log with journal := log.journal ++ events }

@[simp]
theorem extend_targets (log : Log) (events : Journal) : (log.extend events).targets = log.targets :=
  rfl

@[simp]
theorem extend_debug (log : Log) (events : Journal) : (log.extend events).debug = log.debug :=
  rfl

@[simp]
theorem extend_stamp (log : Log) (events : Journal) : (log.extend events).stamp = log.stamp :=
  rfl

@[simp]
theorem extend_nil (log : Log) : log.extend [] = log := by
  simp [extend]

@[simp]
theorem extend_extend (log : Log) (first second : Journal) :
    (log.extend first).extend second = log.extend (first ++ second) := by
  simp [extend]

section Calls

variable (target : Target) (site : Site) (level : Level) (entry : Entry) (log : Log)

theorem record_apply (event : Event) : record event log = (.ok (), log.extend [event]) :=
  rfl

theorem ask_apply :
    ask target site level log =
      ((target.wants log.journal site level).mapError Stop.raised,
        log.extend [.asked target.id site level]) := by
  rw [ask, bind_of_ok (get_apply log), bind_of_ok (record_apply log _), ofExcept_apply]

theorem deliver_apply :
    deliver target entry log =
      ((target.deliver log.journal entry).mapError Stop.raised,
        log.extend [.delivered target.id entry]) := by
  rw [deliver, bind_of_ok (get_apply log), bind_of_ok (record_apply log _), ofExcept_apply]

theorem flush_apply :
    flush target log =
      ((target.flush log.journal).mapError Stop.raised, log.extend [.flushed target.id]) := by
  rw [flush, bind_of_ok (get_apply log), bind_of_ok (record_apply log _), ofExcept_apply]

end Calls

section Guarded

variable {α : Type} {otherwise value : α} {call : Logging α} {log after : Log} {fault : Fault}

theorem guarded_of_ok (hcall : call log = (.ok value, after)) :
    guarded otherwise call log = (.ok value, after) := by
  simp [guarded, hcall]

theorem guarded_of_contained (hcall : call log = (.error (.raised fault), after))
    (hcontained : fault.isContainable = true) :
    guarded otherwise call log =
      (.ok otherwise, after.extend [.reported fault.message.untilNul]) := by
  simp only [guarded, hcall, hcontained, if_true]
  exact bind_of_ok (record_apply after _)

theorem guarded_of_foreign (hcall : call log = (.error (.raised fault), after))
    (hforeign : fault.isContainable = false) :
    guarded otherwise call log = (.error (.raised fault), after) := by
  simp [guarded, hcall, hforeign]

/-- A guard answers with what the call answers, or in place of a fault. -/
theorem cases_of_guarded_ok (hguarded : guarded otherwise call log = (.ok value, after)) :
    call log = (.ok value, after) ∨
      ∃ fault before, call log = (.error (.raised fault), before) ∧ value = otherwise ∧
        after = before.extend [.reported fault.message.untilNul] := by
  rcases hcall : call log with ⟨outcome, before⟩
  cases outcome with
  | ok answer => exact Or.inl ((guarded_of_ok hcall).symm.trans hguarded)
  | error stop =>
      cases stop with
      | terminated =>
          simp only [guarded, hcall] at hguarded
          cases hguarded
      | raised fault =>
          cases hcontained : fault.isContainable with
          | true =>
              rw [guarded_of_contained hcall hcontained] at hguarded
              cases hguarded
              exact Or.inr ⟨fault, before, rfl, rfl, rfl⟩
          | false =>
              rw [guarded_of_foreign hcall hcontained] at hguarded
              cases hguarded

end Guarded

/-- A target raises this fault at one of its calls. -/
inductive Target.Raises (target : Target) (fault : Fault) : Prop where
  | wants (journal : Journal) (site : Site) (level : Level)
      (hwants : target.wants journal site level = .error fault)
  | deliver (journal : Journal) (entry : Entry)
      (hdeliver : target.deliver journal entry = .error fault)
  | flush (journal : Journal) (hflush : target.flush journal = .error fault)

/-- Every fault of a target can be contained. -/
def Target.Contained (target : Target) : Prop :=
  ∀ fault, target.Raises fault → fault.isContainable = true

section Contained

theorem Target.Script.answer_eq_error_iff {α : Type} {scripted : Option Fault} {value : α}
    {fault : Fault} : Script.answer scripted value = .error fault ↔ scripted = some fault := by
  cases scripted with
  | none => simp [Script.answer]
  | some fault => simp [Script.answer]

/-- A target that follows a predicate never fails. -/
theorem Target.ofPredicate_contained (id : TargetId) (wanted : Site → Level → Bool) :
    (ofPredicate id wanted).Contained := by
  rintro fault (⟨journal, site, level, hwants⟩ | ⟨journal, entry, hdeliver⟩ | ⟨journal, hflush⟩)
  · contradiction
  · contradiction
  · contradiction

/-- The faults of a scripted target are those of its script. -/
theorem Target.scripted_contained (name : Bytes) {script : Script}
    (hwants : ∀ fault ∈ script.onWants, fault.isContainable = true)
    (hdeliver : ∀ fault ∈ script.onDeliver, fault.isContainable = true)
    (hflush : ∀ fault ∈ script.onFlush, fault.isContainable = true) :
    (scripted name script).Contained := by
  rintro fault (⟨journal, site, level, hraised⟩ | ⟨journal, entry, hraised⟩ | ⟨journal, hraised⟩)
  · exact hwants fault (Script.answer_eq_error_iff.mp hraised)
  · exact hdeliver fault (Script.answer_eq_error_iff.mp hraised)
  · exact hflush fault (Script.answer_eq_error_iff.mp hraised)

end Contained

/-- Hand an entry to these targets, if it comes from a known place. -/
def handOut (entry : Entry) (targets : List Target) : Logging Unit :=
  if entry.isValid then targets.forM (offer entry) else pure ()

/-- Flush these targets, if an entry is serious enough. -/
def flushAfter (entry : Entry) (targets : List Target) : Logging Unit :=
  if entry.level ≥ Level.error then targets.forM fun target => guarded () (flush target)
  else pure ()

/-- A dispatch hands its entry out and then flushes. -/
theorem dispatch_apply (entry : Entry) (log : Log) :
    dispatch entry log =
      (handOut entry log.targets >>= fun _ => flushAfter entry log.targets) log := by
  rw [dispatch, bind_of_ok (get_apply log), handOut, flushAfter]
  split
  · rfl
  · rfl

theorem write_of_ok {entry : Entry} {log after : Log}
    (hdispatch : dispatch entry log = (.ok (), after)) :
    write entry log =
      (if isFatal after.debug entry.level then .error .terminated else .ok (), after) := by
  rw [write, bind_of_ok hdispatch, bind_of_ok (get_apply after)]
  split
  · rfl
  · rfl

theorem write_of_error {entry : Entry} {log after : Log} {stop : Stop}
    (hdispatch : dispatch entry log = (.error stop, after)) :
    write entry log = (.error stop, after) := by
  rw [write, bind_of_error hdispatch]

end Log

end TokenMint
