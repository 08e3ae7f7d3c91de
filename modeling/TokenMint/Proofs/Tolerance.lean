import Mathlib.Data.List.TakeWhile
import TokenMint.Options.FromEnvironment
import TokenMint.Proofs.Decimal
import TokenMint.Proofs.Rounds

/-!
# The tolerance in the environment

Whether a process trusts its variables is settled at its first look at them, by whom it
ran as then.  A trusted text is taken over just if it is made of figures and the number
that they spell fits in 64 bits.  In no other case do the options change.
-/

namespace TokenMint

namespace Environment

/-- Something that happens in the environment of a process, or to it. -/
inductive Event where
  /-- The process goes on for another user or with other rights. -/
  | become (identity : Identity)
  | set (name value : Bytes)
  | unset (name : Bytes)
  /-- The process looks up a variable that it has to trust. -/
  | look (name : Bytes)

def apply (environment : Environment) : Event → Environment
  | .become identity => { environment with identity }
  | .set name value => environment.set name value
  | .unset name => environment.unset name
  | .look name => (environment.lookup name).2

/-- The environment after some events, the earliest first. -/
def run (environment : Environment) (events : List Event) : Environment :=
  events.foldl apply environment

/-- As whom a process looks at its environment for the first time, which it does after
these events if not before. -/
def firstLook (identity : Identity) : List Event → Identity
  | [] => identity
  | .become next :: rest => firstLook next rest
  | .set _ _ :: rest => firstLook identity rest
  | .unset _ :: rest => firstLook identity rest
  | .look _ :: _ => identity

section Trust

variable {environment : Environment} {trusted : Bool}

theorem isTrusted_of_settled (hsettled : environment.trust = some trusted) :
    environment.isTrusted.1 = trusted := by
  simp [isTrusted, hsettled]

theorem apply_of_settled (hsettled : environment.trust = some trusted) (event : Event) :
    (environment.apply event).trust = some trusted := by
  cases event with
  | become identity => exact hsettled
  | set name value => exact hsettled
  | unset name => exact hsettled
  | look name => simp [apply, lookup, isTrusted, hsettled]

/-- Trust that is settled stays as it is. -/
theorem run_of_settled (hsettled : environment.trust = some trusted) (events : List Event) :
    (environment.run events).trust = some trusted := by
  induction events generalizing environment with
  | nil => exact hsettled
  | cons event rest ih => exact ih (apply_of_settled hsettled event)

/-- A process trusts its variables just if it had the rights of its user, and no others,
at its first look. -/
theorem isTrusted_run (hopen : environment.trust = none) (events : List Event) :
    (environment.run events).isTrusted.1 = (firstLook environment.identity events).isPlain := by
  induction events generalizing environment with
  | nil => simp [run, firstLook, isTrusted, hopen]
  | cons event rest ih =>
      cases event with
      | become next => exact ih hopen
      | set name value => exact ih hopen
      | unset name => exact ih hopen
      | look name =>
          have hsettled : (environment.lookup name).2.trust = some environment.identity.isPlain := by
            simp [lookup, isTrusted, hopen]
          exact isTrusted_of_settled (run_of_settled hsettled rest)

end Trust

section Lookup

variable {environment : Environment} {name : Bytes}

theorem lookup_of_trusted (htrusted : environment.isTrusted.1 = true) :
    environment.lookup name = (environment.values.find? name, environment.isTrusted.2) := by
  simp only [lookup, htrusted, if_true]
  rfl

theorem lookup_of_untrusted (huntrusted : environment.isTrusted.1 = false) :
    environment.lookup name = (none, environment.isTrusted.2) := by
  simp [lookup, huntrusted]

end Lookup

end Environment

theorem Identity.isPlain_iff (identity : Identity) :
    identity.isPlain = true ↔
      identity.user = identity.effectiveUser ∧ identity.group = identity.effectiveGroup := by
  simp [isPlain]

namespace Options

open Effect Log

/-- A text that states a tolerance: figures and nothing else, which spell a number of at
most 64 bits. -/
structure IsTolerance (text : Bytes) : Prop where
  nonempty : text ≠ []
  figures : ∀ byte ∈ text, Decimal.IsFigure byte
  fits : Decimal.spelled text < UInt64.size

theorem isTolerance_iff (text : Bytes) :
    IsTolerance text ↔
      text ≠ [] ∧ text.all Decimal.isDigit = true ∧ Decimal.value text < UInt64.size := by
  have hfigures : text.all Decimal.isDigit = true ↔ ∀ byte ∈ text, Decimal.IsFigure byte := by
    simp [Decimal.isDigit_iff]
  rw [hfigures, Decimal.value_eq_spelled]
  constructor
  · rintro ⟨hnonempty, hall, hfits⟩
    exact ⟨hnonempty, hall, hfits⟩
  · rintro ⟨hnonempty, hall, hfits⟩
    exact ⟨hnonempty, hall, hfits⟩

instance (text : Bytes) : Decidable (IsTolerance text) :=
  decidable_of_iff' _ (isTolerance_iff text)

section Reading

variable {text : Bytes} {tolerance : UInt64}

theorem span_of_figures (hfigures : ∀ byte ∈ text, Decimal.IsFigure byte) :
    Decimal.span text = (text, []) := by
  have hdigits : ∀ byte ∈ text, Decimal.isDigit byte = true := fun byte hbyte =>
    Decimal.isDigit_iff.mpr (hfigures byte hbyte)
  rw [Decimal.span, List.takeWhile_eq_self_iff.mpr hdigits, List.dropWhile_eq_nil_iff.mpr hdigits]

theorem readTolerance_of_isTolerance (htext : IsTolerance text) :
    readTolerance text = .ok (Decimal.spelled text).toUInt64 := by
  have hfits : ¬ Decimal.spelled text ≥ UInt64.size := Nat.not_le_of_lt htext.fits
  simp [readTolerance, span_of_figures htext.figures, Decimal.value_eq_spelled, htext.nonempty,
    hfits]

theorem figures_of_span (hrest : (Decimal.span text).2 = []) :
    ∀ byte ∈ text, Decimal.IsFigure byte := by
  intro byte hbyte
  exact Decimal.isDigit_iff.mp (List.dropWhile_eq_nil_iff.mp hrest byte hbyte)

/-- A text that is read states a tolerance. -/
theorem isTolerance_of_readTolerance (hread : readTolerance text = .ok tolerance) :
    IsTolerance text := by
  by_cases hrest : (Decimal.span text).2 = []
  · have hfigures := figures_of_span hrest
    simp only [readTolerance, span_of_figures hfigures, Decimal.value_eq_spelled] at hread
    constructor
    · rintro rfl
      simp at hread
    · exact hfigures
    · by_contra hlarge
      have htooLarge : Decimal.spelled text ≥ UInt64.size := Nat.le_of_not_lt hlarge
      simp only [if_pos htooLarge] at hread
      split at hread
      · contradiction
      · contradiction
  · simp only [readTolerance, if_pos hrest] at hread
    split at hread
    · contradiction
    · split at hread
      · contradiction
      · contradiction

theorem toNat_of_isTolerance (htext : IsTolerance text) :
    (Decimal.spelled text).toUInt64.toNat = Decimal.spelled text :=
  Nat.mod_eq_of_lt htext.fits

end Reading

section Loading

variable {κ : Type} [OptionClasses κ]

/-- A computation comes to this answer, unless a fault escapes the targets of the log,
and changes nothing but the journal of the log. -/
def OnlySays {α : Type} (act : Loading κ α) (answer : α) : Prop :=
  ∀ held host, ∃ outcome events, AnswersOrEscapes host.log.targets answer outcome ∧
    act (held, host) = (outcome, (held, { host with log := host.log.extend events }))

theorem onlySays_answer {α : Type} {site : Site} {level : Level} (hknown : site.isKnown = true)
    (hlevel : ¬ Level.error ≤ level) (parts : List Part) (answer : α) :
    OnlySays (do
      aside (Host.logging (Log.say site level parts))
      return answer : Loading κ α) answer := by
  intro held host
  have haside : aside (Host.logging (Log.say site level parts)) (held, host) =
      ((Log.say site level parts host.log).1,
        (held, { host with log := (Log.say site level parts host.log).2 })) := rfl
  obtain ⟨events, hsaid | ⟨fault, hescapes, hsaid⟩⟩ := say_answers parts hknown hlevel host.log
  · rw [hsaid] at haside
    exact ⟨_, events, Or.inl rfl, bind_of_ok haside⟩
  · rw [hsaid] at haside
    exact ⟨_, events, Or.inr ⟨fault, hescapes, rfl⟩, bind_of_error haside⟩

variable [DecidableEq κ] {options : Options (OptionKey κ)} {host : Host} {text : Bytes}

/-- The tolerance that options read as. -/
def toleranceOf (options : Options (OptionKey κ)) : UInt64 :=
  ValidationOptions.toleranceMs (options.get .validation)

/-- How a text is settled: it is accepted just if it states a tolerance, which the
options then hold, and no other text changes them. -/
structure Settled (text : Bytes) (before after : Options (OptionKey κ)) (status : Status) :
    Prop where
  accepts : status.isOk = true ↔ IsTolerance text
  sets : IsTolerance text → after.has .validation = true ∧
    (toleranceOf after).toNat = Decimal.spelled text
  keeps : ∀ key ≠ .validation, after.values.find? key = before.values.find? key
  refuses : ¬ IsTolerance text → status.code = .invalidArgument ∧ after = before

theorem settled_of_isTolerance (options : Options (OptionKey κ)) (htext : IsTolerance text) :
    Settled text options (options.set .validation ⟨(Decimal.spelled text).toUInt64⟩) Status.ok := by
  constructor
  · simp [Status.isOk, htext]
  · intro _
    refine ⟨has_set_self _ _, ?_⟩
    rw [toleranceOf, get_set_self]
    exact toNat_of_isTolerance htext
  · intro key hkey
    exact find?_set_of_ne options _ hkey
  · intro hbad
    exact absurd htext hbad

theorem settled_of_bad {status : Status} (options : Options (OptionKey κ))
    (hbad : ¬ IsTolerance text) (hcode : status.code = .invalidArgument) :
    Settled text options options status := by
  constructor
  · have hfailed : ¬ Code.invalidArgument = Code.ok := by decide
    simp [Status.isOk_iff_code, hcode, hbad, hfailed]
  · intro htext
    exact absurd htext hbad
  · intro _ _
    rfl
  · intro _
    exact ⟨hcode, rfl⟩

theorem takeOver_of_isTolerance (options : Options (OptionKey κ)) (host : Host)
    (htext : IsTolerance text) :
    ∃ outcome events, AnswersOrEscapes host.log.targets Status.ok outcome ∧
      takeOver options text (some options, host) =
        (outcome, (some (options.set .validation ⟨(Decimal.spelled text).toUInt64⟩),
          { host with log := host.log.extend events })) := by
  have hknown : (Site.of "Options" 3).isKnown = true := rfl
  have hlevel : ¬ Level.error ≤ Level.verbose 1 := by decide
  rw [takeOver, readTolerance_of_isTolerance htext]
  exact onlySays_answer hknown hlevel _ _ _ host

theorem takeOver_of_bad (options : Options (OptionKey κ)) (hbad : ¬ IsTolerance text) :
    ∃ status : Status, status.code = .invalidArgument ∧
      OnlySays (takeOver options text) status := by
  rcases hread : readTolerance text with error | tolerance
  · have hknown : (Site.of "Options" 2).isKnown = true := rfl
    have hlevel : ¬ Level.error ≤ Level.warn := by decide
    refine ⟨Status.invalidArgument
      (concat ["$", .text toleranceVariable, ": ", .text error.status.message]), rfl, ?_⟩
    rw [takeOver, hread]
    exact onlySays_answer hknown hlevel _ _
  · exact absurd (isTolerance_of_readTolerance hread) hbad

/-- A text that was found is settled, whatever becomes of the message about it. -/
theorem takeOver_settles (options : Options (OptionKey κ)) (text : Bytes) (host : Host) :
    ∃ status after outcome events, Settled text options after status ∧
      AnswersOrEscapes host.log.targets status outcome ∧
      takeOver options text (some options, host) =
        (outcome, (some after, { host with log := host.log.extend events })) := by
  by_cases htext : IsTolerance text
  · obtain ⟨outcome, events, htaken⟩ := takeOver_of_isTolerance options host htext
    exact ⟨_, _, outcome, events, settled_of_isTolerance options htext, htaken⟩
  · obtain ⟨status, hcode, hsays⟩ := takeOver_of_bad options htext
    obtain ⟨outcome, events, hrefused⟩ := hsays (some options) host
    exact ⟨status, options, outcome, events, settled_of_bad options htext hcode, hrefused⟩

section Environment

variable (options : Options (OptionKey κ)) (host : Host) {environment : Environment}

/-- Loading goes on with what it finds at its look at the variable. -/
theorem loadEnvironment_of_lookup {found : Option Bytes} {after : Environment}
    (hlookup : environment.lookup toleranceVariable = (found, after)) :
    loadEnvironment (some options, { host with environment }) =
      (found.elim (pure Status.ok) (takeOver options) : Loading κ Status)
        (some options, { host with environment := after }) := by
  have hgiven : aside (Host.logging
      (Log.Check.present (Site.of "Options" 1) (ascii "opts") (some options)))
      (some options, { host with environment }) =
        (.ok options, (some options, { host with environment })) := rfl
  have hfound : aside (Host.environmentStep (Environment.lookup toleranceVariable))
      (some options, { host with environment }) =
        (.ok found, (some options, { host with environment := after })) := by
    simp [aside, Host.environmentStep, hlookup]
  rw [loadEnvironment]
  refine (bind_of_ok (get_apply (some options, { host with environment }))).trans ?_
  refine (bind_of_ok hgiven).trans ?_
  cases found with
  | none => exact bind_of_ok hfound
  | some value => exact bind_of_ok hfound

/-- Without a text to take over, loading only settles whether variables are trusted. -/
theorem loadEnvironment_of_nothing (hnothing : environment.isTrusted.1 = false ∨
      environment.values.find? toleranceVariable = none) :
    loadEnvironment (some options, { host with environment }) =
      (.ok Status.ok, (some options, { host with environment := environment.isTrusted.2 })) := by
  have hlookup : environment.lookup toleranceVariable = (none, environment.isTrusted.2) := by
    cases htrusted : environment.isTrusted.1 with
    | false => exact Environment.lookup_of_untrusted htrusted
    | true =>
        have hunset := hnothing.resolve_left (by simp [htrusted])
        rw [Environment.lookup_of_trusted htrusted, hunset]
  exact loadEnvironment_of_lookup options host hlookup

theorem loadEnvironment_of_text (htrusted : environment.isTrusted.1 = true)
    (htext : environment.values.find? toleranceVariable = some text) :
    loadEnvironment (some options, { host with environment }) =
      takeOver options text
        (some options, { host with environment := environment.isTrusted.2 }) := by
  have hlookup : environment.lookup toleranceVariable = (some text, environment.isTrusted.2) := by
    rw [Environment.lookup_of_trusted htrusted, htext]
  exact loadEnvironment_of_lookup options host hlookup

end Environment

/-- Loading takes over just the decimal numbers of 64 bits, from the environment of a
process that had the rights of its user at its first look at it, and changes the options
in no other case.  A fault that escapes the log takes the place of the answer alone. -/
theorem tolerance_loaded_exactly (options : Options (OptionKey κ)) (host : Host)
    (identity : Identity) (values : Table Bytes fun _ => Bytes)
    (events : List Environment.Event) :
    let environment := Environment.run ⟨identity, values, none⟩ events
    let first := Environment.firstLook identity events
    let trusted := first.user = first.effectiveUser ∧ first.group = first.effectiveGroup
    let loaded := loadEnvironment (some options, { host with environment })
    (¬ trusted ∨ environment.values.find? toleranceVariable = none →
      loaded =
        (.ok Status.ok, (some options, { host with environment := environment.isTrusted.2 }))) ∧
      ∀ text, trusted → environment.values.find? toleranceVariable = some text →
        ∃ status after outcome said, Settled text options after status ∧
          AnswersOrEscapes host.log.targets status outcome ∧
          ((∀ target ∈ host.log.targets, target.Contained) → outcome = .ok status) ∧
          loaded = (outcome, (some after,
            { host with environment := environment.isTrusted.2, log := host.log.extend said })) := by
  intro environment first trusted loaded
  have htrust : environment.isTrusted.1 = true ↔ trusted := by
    rw [Environment.isTrusted_run rfl events]
    exact Identity.isPlain_iff first
  constructor
  · intro hnothing
    apply loadEnvironment_of_nothing
    rcases hnothing with huntrusted | hunset
    · exact Or.inl (Bool.eq_false_iff.mpr (mt htrust.mp huntrusted))
    · exact Or.inr hunset
  · intro text htrusted htext
    have hloaded := loadEnvironment_of_text options host (htrust.mpr htrusted) htext
    obtain ⟨status, after, outcome, said, hsettled, hanswers, htaken⟩ :=
      takeOver_settles options text { host with environment := environment.isTrusted.2 }
    exact ⟨status, after, outcome, said, hsettled, hanswers, hanswers.answers,
      hloaded.trans htaken⟩

/-- A process that was its user's own when it first looked stays trusted as it gets more
rights; zeros in front of the number do no harm. -/
theorem padded_tolerance_loaded :
    let text := ascii "00250"
    let own : Identity := ⟨7, 7, 7, 7⟩
    let events : List Environment.Event :=
      [.look (ascii "HOME"), .become ⟨7, 0, 7, 0⟩, .set toleranceVariable text]
    let environment := Environment.run ⟨own, Table.empty, none⟩ events
    let host := Host.fresh (Log.fresh default) ⟨[], [], [], [], []⟩ (Environment.ofIdentity own)
    let loaded := loadEnvironment
      (some (Options.empty : Options (OptionKey Empty)), { host with environment })
    environment.values.find? toleranceVariable = some text ∧ IsTolerance text ∧
      ∃ after later, loaded = (.ok Status.ok, (some after, later)) ∧ toleranceOf after = 250 := by
  intro text own events environment host loaded
  have htext : environment.values.find? toleranceVariable = some text := by decide
  have htolerance : IsTolerance text := by decide
  have hcontained : ∀ target ∈ host.log.targets, target.Contained := by
    intro target hmem
    rw [List.mem_singleton.mp hmem]
    exact Target.ofPredicate_contained _ _
  obtain ⟨status, after, outcome, said, hsettled, -, hanswer, hloaded⟩ :=
    (tolerance_loaded_exactly (Options.empty : Options (OptionKey Empty)) host own Table.empty
      events).2 text ⟨rfl, rfl⟩ htext
  have hstatus : status = Status.ok := by
    cases status with
    | ok => rfl
    | failed => exact absurd (hsettled.accepts.mpr htolerance) Bool.false_ne_true
  rw [hanswer hcontained, hstatus] at hloaded
  have hvalue : (toleranceOf after).toNat = Decimal.spelled text := (hsettled.sets htolerance).2
  have hread : Decimal.spelled text = (250 : UInt64).toNat := by
    rw [← Decimal.value_eq_spelled]
    decide
  exact ⟨htext, htolerance, after, _, hloaded, UInt64.toNat_inj.mp (hvalue.trans hread)⟩

end Loading

end Options

namespace Decimal

open Log Options

section Canonical

variable {text : Bytes}

theorem IsNumeral.isTolerance (htext : IsNumeral text) (hfits : spelled text < UInt64.size) :
    IsTolerance text :=
  ⟨htext.nonempty, htext.figures, hfits⟩

theorem render_unsigned (number : UInt64) : concat [.unsigned number] = ofUInt64 number :=
  List.append_nil (ofUInt64 number)

theorem render_signed (number : Int64) : concat [.signed number] = ofInt64 number :=
  List.append_nil (ofInt64 number)

/-- A numeral in the environment is taken over as the number that it renders. -/
theorem loadEnvironment_of_numeral {κ : Type} [OptionClasses κ] [DecidableEq κ]
    (options : Options (OptionKey κ)) (host : Host) {environment : Environment}
    (htrusted : environment.isTrusted.1 = true) (number : UInt64) :
    ∃ outcome after later, AnswersOrEscapes host.log.targets Status.ok outcome ∧
      toleranceOf after = number ∧
      loadEnvironment (some options, { host with
        environment := environment.set toleranceVariable (ofUInt64 number) }) =
          (outcome, (some after, later)) := by
  obtain ⟨-, hnumeral, hspelled, -⟩ := ofUInt64_spec number
  have hfits : spelled (ofUInt64 number) < UInt64.size := by
    rw [hspelled]
    exact number.toNat_lt
  have htext : (environment.set toleranceVariable (ofUInt64 number)).values.find?
      toleranceVariable = some (ofUInt64 number) := by
    rw [Environment.set, Table.find?_insert_self,
      Bytes.untilNul_of_notMem (zero_notMem_of_figures hnumeral.figures)]
  have hstill : (environment.set toleranceVariable (ofUInt64 number)).isTrusted.1 = true :=
    htrusted
  have hloaded := loadEnvironment_of_text options host hstill htext
  obtain ⟨outcome, said, hanswers, htaken⟩ := takeOver_of_isTolerance options
    { host with environment := (environment.set toleranceVariable (ofUInt64 number)).isTrusted.2 }
    (hnumeral.isTolerance hfits)
  refine ⟨outcome, _, _, hanswers, ?_, hloaded.trans htaken⟩
  rw [toleranceOf, get_set_self, hspelled]
  exact UInt64.ofNat_toNat

/-- A number has one numeral.  It is what is written behind any text, behind a minus sign
for a negative number, and in the environment it is read as the number again. -/
theorem numerals_are_canonical :
    (∀ (written : Bytes) (number : UInt64), ∃ numeral,
      concatTo written [.unsigned number] = written ++ numeral ∧
        fill slots number [] = some numeral ∧ numeral.length ≤ 20 ∧
        IsNumeral numeral ∧ spelled numeral = number.toNat ∧
        ∀ other, IsNumeral other → spelled other = number.toNat → other = numeral) ∧
    (∀ (written : Bytes) (number : Int64), ∃ numeral,
      concatTo written [.signed number] =
        written ++ (if number < 0 then ['-'.toUInt8] else []) ++ numeral ∧
        IsNumeral numeral ∧ spelled numeral = number.toInt.natAbs ∧
        ((concat [.signed number]).head? = some '-'.toUInt8 ↔ number < 0)) ∧
    (∀ a b : UInt64, concat [.unsigned a] = concat [.unsigned b] → a = b) ∧
    (∀ a b : Int64, concat [.signed a] = concat [.signed b] → a = b) ∧
    ∀ {κ : Type} [OptionClasses κ] [DecidableEq κ] (options : Options (OptionKey κ))
      (host : Host) (environment : Environment) (number : UInt64),
      environment.isTrusted.1 = true →
      ∃ outcome after later, AnswersOrEscapes host.log.targets Status.ok outcome ∧
        toleranceOf after = number ∧
        loadEnvironment (some options, { host with
          environment := environment.set toleranceVariable (concat [.unsigned number]) }) =
            (outcome, (some after, later)) := by
  refine ⟨?_, ?_, ?_, ?_, ?_⟩
  · intro written number
    obtain ⟨hfill, hnumeral, hspelled, hlength⟩ := ofUInt64_spec number
    refine ⟨ofUInt64 number, ?_, hfill, hlength, hnumeral, hspelled, ?_⟩
    · rw [concatTo, render_unsigned]
    · intro other hother hsame
      exact hother.eq_of_spelled hnumeral (hsame.trans hspelled.symm)
  · intro written number
    obtain ⟨numeral, hrender, hnumeral, hspelled⟩ := ofInt64_spec number
    refine ⟨numeral, ?_, hnumeral, hspelled, ?_⟩
    · rw [concatTo, render_signed, hrender, List.append_assoc]
      rfl
    · rw [render_signed]
      exact head_ofInt64 number
  · intro a b heq
    rw [render_unsigned, render_unsigned] at heq
    exact ofUInt64_inj heq
  · intro a b heq
    rw [render_signed, render_signed] at heq
    exact ofInt64_inj heq
  · intro κ _ _ options host environment number htrusted
    rw [render_unsigned]
    exact loadEnvironment_of_numeral options host htrusted number

/-- The greatest number takes every slot of the buffer, and comes back from the
environment. -/
theorem greatest_numeral_loaded :
    let environment := Environment.ofIdentity ⟨7, 7, 7, 7⟩
    let host := Host.fresh (Log.fresh default) ⟨[], [], [], [], []⟩ environment
    let number : UInt64 := 18446744073709551615
    environment.isTrusted.1 = true ∧
      concat [.unsigned number] = ascii "18446744073709551615" ∧
      ∃ outcome after later, AnswersOrEscapes host.log.targets Status.ok outcome ∧
        toleranceOf after = number ∧
        loadEnvironment (some (Options.empty : Options (OptionKey Empty)), { host with
          environment := environment.set toleranceVariable (concat [.unsigned number]) }) =
            (outcome, (some after, later)) := by
  intro environment host number
  have htrusted : environment.isTrusted.1 = true := rfl
  have hrender : concat [.unsigned number] = ascii "18446744073709551615" := by decide
  obtain ⟨-, -, -, -, hloads⟩ := numerals_are_canonical
  exact ⟨htrusted, hrender, hloads Options.empty host environment number htrusted⟩

end Canonical

end Decimal

end TokenMint
