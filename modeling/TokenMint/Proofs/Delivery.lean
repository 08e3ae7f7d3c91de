import Mathlib.Logic.Basic
import TokenMint.Proofs.Loggers
import TokenMint.Proofs.TargetCalls

/-!
# Delivery

A message goes once to every registered target that wants it, in the order of
registration, and a serious one is flushed everywhere behind that.  Targets answer
for themselves alone, as long as what they want is fixed and their faults can be
contained.
-/

namespace TokenMint

namespace Log

open Effect

/-- A change of the targets of a log. -/
inductive Registration where
  | add (target : Target)
  | remove (id : TargetId)

def register (log : Log) : Registration → Log
  | .add target => log.addTarget target
  | .remove id => log.removeTarget id

def registerAll (log : Log) (history : List Registration) : Log :=
  history.foldl register log

/-- What a change makes of the targets.  Targets are added behind the others, the
first occurrence is removed, and so is nothing at all. -/
inductive Registers : List Target → Registration → List Target → Prop where
  | added (targets : List Target) (target : Target) :
      Registers targets (.add target) (targets ++ [target])
  | removed {earlier later : List Target} {target : Target} {id : TargetId}
      (hearlier : ∀ other ∈ earlier, other.id ≠ id) (hid : target.id = id) :
      Registers (earlier ++ target :: later) (.remove id) (earlier ++ later)
  | absent {targets : List Target} {id : TargetId} (habsent : ∀ other ∈ targets, other.id ≠ id) :
      Registers targets (.remove id) targets

/-- What a history of changes makes of the targets. -/
inductive Registered : List Target → List Registration → List Target → Prop where
  | nil (targets : List Target) : Registered targets [] targets
  | cons {before between after : List Target} {change : Registration}
      {history : List Registration} (hchange : Registers before change between)
      (hhistory : Registered between history after) :
      Registered before (change :: history) after

section Registered

theorem register_registers (log : Log) (change : Registration) :
    Registers log.targets change (log.register change).targets := by
  cases change with
  | add target => exact .added log.targets target
  | remove id =>
      by_cases hpresent : ∃ target ∈ log.targets, target.id = id
      · obtain ⟨target, hmem, hid⟩ := hpresent
        obtain ⟨first, earlier, later, hearlier, hfirst, htargets, hrest⟩ :=
          List.exists_of_eraseP (p := fun other => other.id = id) hmem (decide_eq_true hid)
        rw [register, removeTarget, hrest, htargets]
        exact .removed (by simpa using hearlier) (of_decide_eq_true hfirst)
      · have habsent : ∀ other ∈ log.targets, other.id ≠ id := by
          intro other hother hid
          exact hpresent ⟨other, hother, hid⟩
        rw [register, removeTarget, List.eraseP_of_forall_not (by simpa using habsent)]
        exact .absent habsent

theorem registerAll_registered (log : Log) (history : List Registration) :
    Registered log.targets history (log.registerAll history).targets := by
  induction history generalizing log with
  | nil => exact .nil log.targets
  | cons change history ih => exact .cons (register_registers log change) (ih (log.register change))

end Registered

namespace Event

/-- Whether a target gets something: an entry or a flush. -/
def isReceipt : Event → Bool
  | delivered .. => true
  | flushed _ => true
  | _ => false

end Event

/-- What the targets got. -/
def Journal.receipts (journal : Journal) : Journal :=
  journal.filter Event.isReceipt

@[simp]
theorem Journal.receipts_append (first second : Journal) :
    receipts (first ++ second) = first.receipts ++ second.receipts :=
  List.filter_append first second

/-- Whether a target wants entries of this place and level. -/
def Target.accepts (target : Target) (site : Site) (level : Level) : Bool :=
  (target.wants [] site level).toOption == some true

/-- A target says the same about a place and a level at all times, or fails at all
times, and its faults can be contained. -/
structure Target.Tame (target : Target) : Prop where
  steady : ∀ journal site level,
    (target.wants journal site level).toOption = (target.wants [] site level).toOption
  contained : target.Contained

/-- A computation adds to the journal alone, the targets get just this from it, and
its outcome is as required. -/
def Yields {α : Type} (act : Logging α) (required : Except Stop α → Prop) (receipts : Journal) :
    Prop :=
  ∀ log, ∃ outcome events,
    act log = (outcome, log.extend events) ∧ required outcome ∧ events.receipts = receipts

/-- A computation answers with this value, and the targets get just this from it. -/
def Delivers {α : Type} (act : Logging α) (value : α) (receipts : Journal) : Prop :=
  Yields act (· = .ok value) receipts

/-- What a guard turns into `value`: the answer itself, or a fault that it contains if
`value` is what it goes on with. -/
inductive Guards {α : Type} (otherwise : α) : α → Except Stop α → Prop where
  | answer (value : α) : Guards otherwise value (.ok value)
  | fault {fault : Fault} (hcontained : fault.isContainable = true) :
      Guards otherwise otherwise (.error (.raised fault))

section Yields

variable {α β : Type} {act : Logging α} {next : α → Logging β} {value otherwise : α}
  {receipts first second : Journal}

theorem Yields.pure {required : Except Stop α → Prop} (hrequired : required (.ok value)) :
    Yields (pure value : Logging α) required [] := by
  intro log
  exact ⟨.ok value, [], by simp, hrequired, rfl⟩

theorem Delivers.pure (value : α) : Delivers (pure value : Logging α) value [] :=
  Yields.pure rfl

theorem Delivers.bind {result : β} (hact : Delivers act value first)
    (hnext : Delivers (next value) result second) :
    Delivers (act >>= next) result (first ++ second) := by
  intro log
  obtain ⟨_, before, hact, rfl, hbefore⟩ := hact log
  obtain ⟨_, after, hnext, rfl, hafter⟩ := hnext (log.extend before)
  refine ⟨.ok result, before ++ after, ?_, rfl, ?_⟩
  · rw [bind_of_ok hact, hnext, extend_extend]
  · rw [Journal.receipts_append, hbefore, hafter]

/-- A question that fails counts as one that is answered with a no, where nothing
follows a no. -/
theorem Yields.bind_question {question : Logging Bool} {answer : Bool} {step : Bool → Logging Unit}
    (hquestion : Yields question (Guards false answer) [])
    (hstep : Yields (step answer) (Guards () ()) receipts)
    (hno : answer = false → receipts = []) :
    Yields (question >>= step) (Guards () ()) receipts := by
  intro log
  obtain ⟨_, before, hquestion, hguards, hbefore⟩ := hquestion log
  cases hguards with
  | answer =>
      obtain ⟨outcome, after, hstep, hguards, hafter⟩ := hstep (log.extend before)
      refine ⟨outcome, before ++ after, ?_, hguards, ?_⟩
      · rw [bind_of_ok hquestion, hstep, extend_extend]
      · rw [Journal.receipts_append, hbefore, hafter, List.nil_append]
  | fault hcontained =>
      refine ⟨_, before, bind_of_error hquestion, .fault hcontained, ?_⟩
      rw [hbefore, hno rfl]

theorem Delivers.forM {targets : List Target} {step : Target → Logging Unit}
    {share : Target → Journal}
    (hstep : ∀ target ∈ targets, Delivers (step target) () (share target)) :
    Delivers (targets.forM step) () (targets.flatMap share) := by
  induction targets with
  | nil => exact .pure ()
  | cons target rest ih =>
      rw [List.forall_mem_cons] at hstep
      exact hstep.1.bind (ih hstep.2)

theorem Yields.guarded (hact : Yields act (Guards otherwise value) receipts) :
    Delivers (guarded otherwise act) value receipts := by
  intro log
  obtain ⟨outcome, events, hact, hguards, hreceipts⟩ := hact log
  cases hguards with
  | answer => exact ⟨_, events, guarded_of_ok hact, rfl, hreceipts⟩
  | @fault fault hcontained =>
      refine ⟨.ok value, events ++ [.reported fault.message.untilNul], ?_, rfl, ?_⟩
      · rw [guarded_of_contained hact hcontained, extend_extend]
      · rw [Journal.receipts_append, hreceipts]
        exact List.append_nil receipts

end Yields

section Target

variable {target : Target}

theorem ask_guards (htame : target.Tame) (site : Site) (level : Level) :
    Yields (ask target site level) (Guards false (target.accepts site level)) [] := by
  intro log
  refine ⟨_, _, ask_apply target site level log, ?_, rfl⟩
  rw [Target.accepts, ← htame.steady log.journal]
  cases hwants : target.wants log.journal site level with
  | ok wanted =>
      cases wanted with
      | true => exact .answer true
      | false => exact .answer false
  | error fault => exact .fault (htame.contained fault (.wants log.journal site level hwants))

theorem deliver_guards (hcontained : target.Contained) (entry : Entry) :
    Yields (deliver target entry) (Guards () ()) [.delivered target.id entry] := by
  intro log
  refine ⟨_, _, deliver_apply target entry log, ?_, rfl⟩
  cases hdeliver : target.deliver log.journal entry with
  | ok => exact .answer ()
  | error fault => exact .fault (hcontained fault (.deliver log.journal entry hdeliver))

theorem flush_guards (hcontained : target.Contained) :
    Yields (flush target) (Guards () ()) [.flushed target.id] := by
  intro log
  refine ⟨_, _, flush_apply target log, ?_, rfl⟩
  cases hflush : target.flush log.journal with
  | ok => exact .answer ()
  | error fault => exact .fault (hcontained fault (.flush log.journal hflush))

/-- What a target gets of an entry. -/
def Target.share (entry : Entry) (target : Target) : Journal :=
  if target.accepts entry.site entry.level then [.delivered target.id entry] else []

theorem offer_delivers (htame : target.Tame) (entry : Entry) :
    Delivers (offer entry target) () (target.share entry) := by
  apply Yields.guarded
  apply (ask_guards htame entry.site entry.level).bind_question
  · rw [Target.share]
    cases target.accepts entry.site entry.level with
    | true => exact deliver_guards htame.contained entry
    | false => exact Yields.pure (.answer ())
  · intro hno
    rw [Target.share, hno, if_neg Bool.false_ne_true]

end Target

section Say

variable {targets : List Target}

/-- The questions asked before a message is collected reach their answer whatever
the targets do. -/
theorem askAny_delivers (htame : ∀ target ∈ targets, target.Tame) (site : Site) (level : Level) :
    Delivers (askAny site level targets) (targets.any (·.accepts site level)) [] := by
  induction targets with
  | nil => exact .pure false
  | cons target rest ih =>
      rw [List.forall_mem_cons] at htame
      rw [List.any_cons]
      apply (ask_guards htame.1 site level).guarded.bind
      cases target.accepts site level with
      | true => exact Delivers.pure true
      | false => exact ih htame.2

/-- What these targets get of an entry, in their order. -/
def deliveries (entry : Entry) (targets : List Target) : Journal :=
  (targets.filter (·.accepts entry.site entry.level)).map fun target =>
    .delivered target.id entry

theorem flatMap_share (entry : Entry) (targets : List Target) :
    targets.flatMap (Target.share entry) = deliveries entry targets := by
  induction targets with
  | nil => rfl
  | cons target rest ih =>
      rw [List.flatMap_cons, ih, Target.share, deliveries, deliveries, List.filter_cons]
      split
      · rfl
      · rfl

/-- What these targets get of a flush behind an entry of this level. -/
def flushes (level : Level) (targets : List Target) : Journal :=
  if level ≥ Level.error then targets.map (.flushed ·.id) else []

theorem handOut_delivers (htame : ∀ target ∈ targets, target.Tame) {entry : Entry}
    (hvalid : entry.isValid = true) :
    Delivers (handOut entry targets) () (deliveries entry targets) := by
  rw [handOut, if_pos hvalid, ← flatMap_share]
  exact .forM fun target hmem => offer_delivers (htame target hmem) entry

theorem flushAfter_delivers (hcontained : ∀ target ∈ targets, target.Contained) (entry : Entry) :
    Delivers (flushAfter entry targets) () (flushes entry.level targets) := by
  rw [flushAfter, flushes]
  split
  · rw [List.map_eq_flatMap]
    exact .forM fun target hmem => (flush_guards (hcontained target hmem)).guarded
  · exact .pure ()

theorem dispatch_delivers {log : Log} (htame : ∀ target ∈ log.targets, target.Tame)
    (entry : Entry) (hvalid : entry.isValid = true) :
    ∃ events, dispatch entry log = (.ok (), log.extend events) ∧
      events.receipts = deliveries entry log.targets ++ flushes entry.level log.targets := by
  have hflushes : Delivers (flushAfter entry log.targets) () (flushes entry.level log.targets) :=
    flushAfter_delivers (fun target hmem => (htame target hmem).contained) entry
  have hsteps : Delivers (handOut entry log.targets >>= fun _ => flushAfter entry log.targets) ()
      (deliveries entry log.targets ++ flushes entry.level log.targets) :=
    (handOut_delivers htame hvalid).bind hflushes
  obtain ⟨_, events, hdispatch, rfl, hreceipts⟩ := hsteps log
  exact ⟨events, (dispatch_apply entry log).trans hdispatch, hreceipts⟩

theorem write_delivers {log : Log} (htame : ∀ target ∈ log.targets, target.Tame)
    (entry : Entry) (hvalid : entry.isValid = true) :
    ∃ events,
      write entry log =
        (if isFatal log.debug entry.level then .error .terminated else .ok (), log.extend events) ∧
      events.receipts = deliveries entry log.targets ++ flushes entry.level log.targets := by
  obtain ⟨events, hdispatch, hreceipts⟩ := dispatch_delivers htame entry hvalid
  exact ⟨events, write_of_ok hdispatch, hreceipts⟩

/-- Whether a message of this place and level is collected: it is as soon as one
target wants it, and the fatal levels always are. -/
def isCollected (targets : List Target) (site : Site) (level : Level) : Bool :=
  level ≥ Level.debugFatal || targets.any (·.accepts site level)

theorem isCollected_of_isFatal {debug : Bool} {level : Level} (hfatal : isFatal debug level = true)
    (targets : List Target) (site : Site) : isCollected targets site level = true := by
  rw [isCollected, decide_eq_true (le_of_isFatal hfatal), Bool.true_or]

theorem wants_delivers {log : Log} (htame : ∀ target ∈ log.targets, target.Tame) (site : Site)
    (level : Level) :
    ∃ events,
      wants site 1 level log =
        (.ok (isCollected log.targets site level), log.extend events) ∧
      events.receipts = [] := by
  rw [isCollected]
  by_cases hlevel : Level.debugFatal ≤ level
  · refine ⟨[], ?_, rfl⟩
    rw [wants_of_debugFatal site 1 hlevel, extend_nil, decide_eq_true hlevel, Bool.true_or]
  · obtain ⟨_, events, hasked, rfl, hreceipts⟩ := askAny_delivers htame site level log
    refine ⟨events, ?_, hreceipts⟩
    rw [wants_once site hlevel, hasked, decide_eq_false hlevel, Bool.false_or]

/-- Nobody misses a message that is not collected. -/
theorem deliveries_of_not_collected {targets : List Target} {entry : Entry}
    (hcollected : isCollected targets entry.site entry.level = false) :
    deliveries entry targets = [] := by
  rw [isCollected, Bool.or_eq_false_iff, List.any_eq_false] at hcollected
  rw [deliveries, List.filter_eq_nil_iff.mpr hcollected.2]
  rfl

/-- A message goes to the targets that want it, and behind it the flushes go to all
of them if it is collected. -/
theorem say_delivers {log : Log} (htame : ∀ target ∈ log.targets, target.Tame) {site : Site}
    (hknown : site.isKnown = true) (level : Level) (parts : List Part) :
    ∃ events,
      say site level parts log =
        (if isFatal log.debug level then .error .terminated else .ok (), log.extend events) ∧
      events.receipts =
        deliveries ⟨site, level, log.stamp, (Message.blank.addAll parts).text⟩ log.targets ++
          if isCollected log.targets site level then flushes level log.targets else [] := by
  obtain ⟨asked, hwants, hasked⟩ := wants_delivers htame site level
  have hsay := sayEvery_of_wants parts (by simp [hknown]) hwants
  cases hcollected : isCollected log.targets site level with
  | true =>
      rw [hcollected, if_pos rfl] at hsay
      have htame_asked : ∀ target ∈ (log.extend asked).targets, target.Tame := htame
      obtain ⟨events, hwrite, hreceipts⟩ := write_delivers htame_asked
        ⟨site, level, log.stamp, (Message.blank.addAll parts).text⟩ hknown
      refine ⟨asked ++ events, ?_, ?_⟩
      · rw [← extend_extend]
        exact hsay.trans hwrite
      · rw [Journal.receipts_append, hasked, hreceipts, if_pos rfl]
        rfl
  | false =>
      rw [hcollected, if_neg Bool.false_ne_true] at hsay
      have hharmless : ¬ isFatal log.debug level = true := by
        intro hfatal
        rw [isCollected_of_isFatal hfatal log.targets site] at hcollected
        contradiction
      refine ⟨asked, ?_, ?_⟩
      · rw [if_neg hharmless]
        exact hsay
      · rw [hasked, deliveries_of_not_collected hcollected, if_neg Bool.false_ne_true]
        rfl

/-- After any history of the registry, a message goes exactly once to every
registered occurrence that wants it, in order and whatever the other targets do.
If it was collected and is serious, every occurrence is flushed once behind all
deliveries, in order.  A fatal message ends the process behind that. -/
theorem delivery_complete_and_exact (start : Log) (history : List Registration) {site : Site}
    (hknown : site.isKnown = true) (level : Level) (parts : List Part)
    (htame : ∀ target ∈ (start.registerAll history).targets, target.Tame) :
    let log := start.registerAll history
    let entry : Entry := ⟨site, level, log.stamp, (Message.blank.addAll parts).text⟩
    Registered start.targets history log.targets ∧
      ∃ events,
        say site level parts log =
            (if isFatal log.debug level then .error .terminated else .ok (), log.extend events) ∧
          events.receipts =
            (log.targets.filter (·.accepts site level)).map (.delivered ·.id entry) ++
              if isCollected log.targets site level ∧ Level.error ≤ level then
                log.targets.map (.flushed ·.id)
              else [] := by
  intro log entry
  obtain ⟨events, hsay, hreceipts⟩ := say_delivers htame hknown level parts
  refine ⟨registerAll_registered start history, events, hsay, ?_⟩
  rw [hreceipts, deliveries, flushes, ← ite_and]

end Say

/-- A target that refuses to be asked stands between two occurrences of one that
fails at everything else, and standard error has gone.  The end of the process comes when
all of them have been served. -/
theorem failing_targets_served :
    let shy := Target.scripted (ascii "shy")
      { Target.Script.plain with onWants := some (.failure (ascii "no")) }
    let leaky := Target.scripted (ascii "leaky")
      { Target.Script.plain with
        onDeliver := some (.misuse (ascii "full")), onFlush := some (.misuse (ascii "full")) }
    let log := (fresh default).registerAll
      [.add leaky, .add leaky, .add shy, .remove .standardError,
        .add (Target.everything (ascii "all")), .add leaky, .remove leaky.id,
        .remove .standardError]
    let site := Site.of "f.cc" 1
    let entry : Entry := ⟨site, Level.debugFatal, default, ascii "boom"⟩
    (∀ target ∈ log.targets, target.Tame) ∧
      ∃ events,
        say site Level.debugFatal ["boom"] log = (.error .terminated, log.extend events) ∧
          events.receipts =
            [.delivered (.named (ascii "leaky")) entry, .delivered (.named (ascii "all")) entry,
              .delivered (.named (ascii "leaky")) entry, .flushed (.named (ascii "leaky")),
              .flushed (.named (ascii "shy")), .flushed (.named (ascii "all")),
              .flushed (.named (ascii "leaky"))] := by
  intro shy leaky log site entry
  have htargets : log.targets = [leaky, shy, Target.everything (ascii "all"), leaky] := rfl
  have hshy : shy.Tame :=
    ⟨fun _ _ _ => rfl, Target.scripted_contained _ (by decide) nofun nofun⟩
  have hleaky : leaky.Tame :=
    ⟨fun _ _ _ => rfl, Target.scripted_contained _ nofun (by decide) (by decide)⟩
  have hall : (Target.everything (ascii "all")).Tame :=
    ⟨fun _ _ _ => rfl, Target.ofPredicate_contained _ _⟩
  have htame : ∀ target ∈ log.targets, target.Tame := by
    simp [htargets, hshy, hleaky, hall]
  have hknown : site.isKnown = true := rfl
  obtain ⟨-, events, hsay, hreceipts⟩ :=
    delivery_complete_and_exact (fresh default) _ hknown Level.debugFatal ["boom"] htame
  exact ⟨htame, events, hsay, hreceipts⟩

end Log

end TokenMint
