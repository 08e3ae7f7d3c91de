import Mathlib.Data.List.Infix
import TokenMint.Proofs.Runs

/-!
# Callers side by side

Any number of callers share a mint, and each of their calls takes two steps.
The first draws a word and may end the call; the second reads the clock and
commits.  Between the two, and between calls, any other caller may take any
number of steps.
-/

namespace TokenMint

/-- What a caller is given at the end of a call, and the time that was read. -/
structure Commit (Caller : Type) where
  caller : Caller
  now : UInt64
  minted : Minted

def Commit.token {Caller : Type} (commit : Commit Caller) : Token :=
  commit.minted.token

/-- What a step comes to. -/
inductive Happening (Caller : Type) where
  | drew (caller : Caller) (word : UInt64)
  | failed (caller : Caller)
  | committed (commit : Commit Caller)

namespace Happening

variable {Caller : Type}

def caller : Happening Caller → Caller
  | drew caller _ => caller
  | failed caller => caller
  | committed commit => commit.caller

def commit? : Happening Caller → Option (Commit Caller)
  | committed commit => some commit
  | _ => none

end Happening

/-- A mint with its callers.  A caller between the two steps of a call holds the
word that it has drawn.  The past begins with its latest happening. -/
structure Shared (Caller : Type) where
  mint : Mint
  pending : Caller → Option UInt64
  past : List (Happening Caller)

namespace Shared

variable {Caller : Type}

/-- Nobody has called yet. -/
def start (mint : Mint) : Shared Caller :=
  ⟨mint, fun _ => none, []⟩

/-- The commits so far, earliest first. -/
def commits (shared : Shared Caller) : List (Commit Caller) :=
  shared.past.reverse.filterMap Happening.commit?

/-- What the clock showed at the commits so far. -/
def readings (shared : Shared Caller) : List UInt64 :=
  shared.commits.map Commit.now

/-- The timestamps and counters of the tokens committed so far. -/
def pairs (shared : Shared Caller) : List (UInt64 × UInt64) :=
  shared.commits.map fun commit => (commit.token.timestamp, commit.token.counter)

def met (shared : Shared Caller) : List (UInt64 × UInt64) :=
  shared.commits.map fun commit => (commit.now, commit.minted.word)

theorem readings_eq (shared : Shared Caller) : shared.readings = shared.met.map Prod.fst := by
  rw [met, List.map_map]
  rfl

variable [DecidableEq Caller]

/-- Write down a step of a caller, which now holds this word or none. -/
def note (shared : Shared Caller) (mint : Mint) (held : Option UInt64)
    (happening : Happening Caller) : Shared Caller where
  mint := mint
  pending := fun caller => if caller = happening.caller then held else shared.pending caller
  past := happening :: shared.past

/-- The first step of a call. -/
def draw (shared : Shared Caller) (caller : Caller) (host : Host) : Shared Caller :=
  match Mint.draw (shared.mint, host) with
  | (.ok (.ok word), (mint, _)) => shared.note mint (some word) (.drew caller word)
  | (_, (mint, _)) => shared.note mint none (.failed caller)

/-- The second step of a call that has drawn this word. -/
def commit (shared : Shared Caller) (caller : Caller) (word : UInt64) (host : Host) :
    Shared Caller :=
  match shared.mint.clock.now host, Mint.commit word (shared.mint, host) with
  | (.ok now, _), (.ok minted, (mint, _)) =>
      shared.note mint none (.committed ⟨caller, now, minted⟩)
  | _, (_, (mint, _)) => shared.note mint none (.failed caller)

/-- The next step of a caller, on the host as it is by then. -/
def step (shared : Shared Caller) (turn : Caller × Host) : Shared Caller :=
  match shared.pending turn.1 with
  | none => shared.draw turn.1 turn.2
  | some word => shared.commit turn.1 word turn.2

def run (shared : Shared Caller) (schedule : List (Caller × Host)) : Shared Caller :=
  schedule.foldl step shared

theorem run_concat (shared : Shared Caller) (schedule : List (Caller × Host))
    (turn : Caller × Host) : shared.run (schedule ++ [turn]) = (shared.run schedule).step turn := by
  rw [run, List.foldl_append]
  rfl

theorem commits_note (shared : Shared Caller) (mint : Mint) (held : Option UInt64)
    (happening : Happening Caller) :
    (shared.note mint held happening).commits = shared.commits ++ happening.commit?.toList := by
  rw [commits, note, List.reverse_cons, List.filterMap_append]
  cases happening with
  | drew => rfl
  | failed => rfl
  | committed => rfl

theorem met_note_committed (shared : Shared Caller) (mint : Mint) (held : Option UInt64)
    (commit : Commit Caller) :
    (shared.note mint held (.committed commit)).met =
      shared.met ++ [(commit.now, commit.minted.word)] := by
  rw [met, commits_note, List.map_append]
  rfl

theorem pending_note_self (shared : Shared Caller) (mint : Mint) (held : Option UInt64)
    (happening : Happening Caller) :
    (shared.note mint held happening).pending happening.caller = held :=
  if_pos rfl

theorem pending_note_of_ne (shared : Shared Caller) (mint : Mint) (held : Option UInt64)
    {happening : Happening Caller} {caller : Caller} (hne : caller ≠ happening.caller) :
    (shared.note mint held happening).pending caller = shared.pending caller :=
  if_neg hne

/-- A step draws a word, fails, or commits the word that its caller holds; only
a commit changes the mint. -/
theorem step_cases (shared : Shared Caller) (caller : Caller) (host : Host) :
    (∃ word, shared.step (caller, host) =
      shared.note shared.mint (some word) (.drew caller word)) ∨
    shared.step (caller, host) = shared.note shared.mint none (.failed caller) ∨
    ∃ word now, shared.pending caller = some word ∧
      shared.step (caller, host) =
        shared.note
          { shared.mint with generator := (shared.mint.generator.commit now word).2 } none
          (.committed ⟨caller, now, (shared.mint.generator.commit now word).1⟩) := by
  cases hpending : shared.pending caller with
  | none =>
      obtain ⟨answer, later, hdraw⟩ := Mint.draw_answers shared.mint host
      rw [step, hpending]
      cases answer with
      | ok word =>
          refine Or.inl ⟨word, ?_⟩
          simp only [draw, hdraw]
      | error status =>
          refine Or.inr (Or.inl ?_)
          simp only [draw, hdraw]
  | some word =>
      rw [step, hpending]
      rcases Clock.now_answers shared.mint.clock host with
        ⟨now, later, hnow⟩ | ⟨fault, later, hnow⟩
      · have hcommit := Mint.commit_of_reading word hnow
        refine Or.inr (Or.inr ⟨word, now, rfl, ?_⟩)
        simp only [commit, hnow, hcommit]
      · have hcommit := Mint.commit_of_stop word hnow
        refine Or.inr (Or.inl ?_)
        simp only [commit, hnow, hcommit]

/-- A call that nobody interrupts does to the mint what a call from start to end
does. -/
theorem run_alone {mint : Mint} {occasion : Mint.Occasion} {bytes : Bytes} {now : UInt64}
    (hmeets : mint.Meets occasion.host bytes now) (caller : Caller) :
    ∃ drawn, ((start mint).run [(caller, occasion.host), (caller, drawn)]).mint =
      (mint.turn occasion).after := by
  obtain ⟨drawn, last, hdraw, hnow⟩ := hmeets.draw_eq
  have hfirst : (start mint).step (caller, occasion.host) =
      (start mint).note mint (some (BigEndian.decode64 bytes))
        (.drew caller (BigEndian.decode64 bytes)) := by
    simp only [step, start, draw, hdraw]
  refine ⟨drawn, ?_⟩
  rw [(Mint.turn_of_meets hmeets).2.1, run, List.foldl_cons, hfirst, List.foldl_cons,
    List.foldl_nil, step]
  have hcommit := Mint.commit_of_reading (BigEndian.decode64 bytes) hnow
  simp only [note, Happening.caller, if_true, commit, hnow, hcommit]

/-- The invariant of every run.  The generator is the one that has met the
commits in their order, and what a caller holds or has committed is the word
of its own latest draw. -/
structure Valid (first : Mint) (shared : Shared Caller) : Prop where
  mint : shared.mint = { first with generator := first.generator.afterAll shared.met }
  minted : shared.commits.map Commit.minted = first.generator.mintAll shared.met
  pending : ∀ caller word, shared.pending caller = some word →
    shared.past.find? (fun happening => happening.caller = caller) = some (.drew caller word)
  words : ∀ commit earlier, (.committed commit :: earlier) <:+ shared.past →
    earlier.find? (fun happening => happening.caller = commit.caller) =
      some (.drew commit.caller commit.minted.word)

theorem start_valid (mint : Mint) : (start mint : Shared Caller).Valid mint where
  mint := rfl
  minted := rfl
  pending := by
    intro caller word hheld
    contradiction
  words := by
    intro commit earlier hsuffix
    rw [start, List.suffix_nil] at hsuffix
    contradiction

section Note

variable {first mint : Mint} {shared : Shared Caller} {held : Option UInt64}
  {happening : Happening Caller}

/-- A caller holds the word that it has just drawn; the others hold what they
held. -/
theorem Valid.pending_note (hvalid : shared.Valid first)
    (hheld : ∀ word, held = some word → happening = .drew happening.caller word) :
    ∀ caller word, (shared.note mint held happening).pending caller = some word →
      (shared.note mint held happening).past.find? (fun happening => happening.caller = caller) =
        some (.drew caller word) := by
  intro caller word hpending
  by_cases hcaller : caller = happening.caller
  · subst hcaller
    rw [pending_note_self] at hpending
    rw [note, List.find?_cons_of_pos (by simp), ← hheld word hpending]
  · rw [pending_note_of_ne shared mint held hcaller] at hpending
    rw [note, List.find?_cons_of_neg (by simpa using Ne.symm hcaller)]
    exact hvalid.pending caller word hpending

theorem Valid.words_note (hvalid : shared.Valid first)
    (hheld : ∀ commit, happening = .committed commit →
      shared.pending commit.caller = some commit.minted.word) :
    ∀ commit earlier, (.committed commit :: earlier) <:+ (shared.note mint held happening).past →
      earlier.find? (fun happening => happening.caller = commit.caller) =
        some (.drew commit.caller commit.minted.word) := by
  intro commit earlier hsuffix
  rcases List.suffix_cons_iff.mp hsuffix with hwhole | hrest
  · rw [List.cons.injEq] at hwhole
    rw [hwhole.2]
    exact hvalid.pending commit.caller commit.minted.word (hheld commit hwhole.1.symm)
  · exact hvalid.words commit earlier hrest

/-- A step without a commit. -/
theorem Valid.note_idle (hvalid : shared.Valid first) (hcommit : happening.commit? = none)
    (hheld : ∀ word, held = some word → happening = .drew happening.caller word) :
    (shared.note shared.mint held happening).Valid first := by
  have hcommits : (shared.note shared.mint held happening).commits = shared.commits := by
    rw [commits_note, hcommit]
    exact List.append_nil _
  refine ⟨?_, ?_, hvalid.pending_note hheld, hvalid.words_note ?_⟩
  · rw [met, hcommits]
    exact hvalid.mint
  · rw [met, hcommits]
    exact hvalid.minted
  · intro commit hcommitted
    rw [hcommitted] at hcommit
    contradiction

theorem Valid.note_commit (hvalid : shared.Valid first) {caller : Caller} {word : UInt64}
    (hheld : shared.pending caller = some word) (now : UInt64) :
    (shared.note { shared.mint with generator := (shared.mint.generator.commit now word).2 } none
      (.committed ⟨caller, now, (shared.mint.generator.commit now word).1⟩)).Valid first := by
  refine ⟨?_, ?_, hvalid.pending_note ?_, hvalid.words_note ?_⟩
  · rw [met_note_committed, hvalid.mint]
    exact congrArg (fun generator => { first with generator })
      (first.generator.afterAll_concat shared.met now word).symm
  · have hnext := first.generator.mintAll_concat shared.met now word
    rw [met_note_committed, commits_note, List.map_append, hvalid.minted, hvalid.mint]
    exact hnext.symm
  · intro word hnone
    contradiction
  · intro commit hcommitted
    cases hcommitted
    exact hheld

end Note

theorem step_valid {first : Mint} {shared : Shared Caller} (hvalid : shared.Valid first)
    (turn : Caller × Host) : (shared.step turn).Valid first := by
  rcases shared.step_cases turn.1 turn.2 with
    ⟨word, hstep⟩ | hstep | ⟨word, now, hpending, hstep⟩
  · rw [hstep]
    apply hvalid.note_idle rfl
    intro held hword
    cases hword
    rfl
  · rw [hstep]
    apply hvalid.note_idle rfl
    intro held hword
    contradiction
  · rw [hstep]
    exact hvalid.note_commit hpending now

theorem run_valid (mint : Mint) (schedule : List (Caller × Host)) :
    ((start mint).run schedule).Valid mint := by
  induction schedule using List.reverseRecOn with
  | nil => exact start_valid mint
  | append_singleton schedule turn ih =>
      rw [run_concat]
      exact step_valid ih turn

theorem Valid.pairs_eq {first : Mint} {shared : Shared Caller} (hvalid : shared.Valid first) :
    shared.pairs = ((first.generator.mintAll shared.met).map fun minted =>
        (minted.timestamp, minted.counter)).map fun pair =>
      ((Token.pack pair.1 pair.2 0).timestamp, (Token.pack pair.1 pair.2 0).counter) := by
  rw [← hvalid.minted, List.map_map, List.map_map]
  apply List.map_congr_left
  intro commit _
  exact Token.pair_pack commit.minted.timestamp commit.minted.counter commit.minted.word

theorem generator_run (mint : Mint) (schedule : List (Caller × Host)) :
    ((start mint).run schedule).mint.generator =
      mint.generator.afterAll ((start mint).run schedule).met :=
  congrArg Mint.generator (run_valid mint schedule).mint

/-- Throughout a run the timestamp of the generator fits the field of a token. -/
def Fits (mint : Mint) (schedule : List (Caller × Host)) : Prop :=
  ∀ past ∈ schedule.inits, ((start mint).run past).mint.generator.lastMs.toNat < 2 ^ 48

instance (mint : Mint) (schedule : List (Caller × Host)) : Decidable (Fits mint schedule) :=
  inferInstanceAs (Decidable (∀ past ∈ schedule.inits, _ < _))

section Run

variable {mint : Mint} {schedule : List (Caller × Host)}

theorem Fits.last (hfits : Fits mint schedule) :
    ((start mint).run schedule).mint.generator.lastMs.toNat < 2 ^ 48 :=
  hfits schedule ((List.mem_inits _ _).mpr (List.prefix_refl _))

theorem Fits.init {turn : Caller × Host} (hfits : Fits mint (schedule ++ [turn])) :
    Fits mint schedule := by
  intro past hpast
  apply hfits past
  rw [List.mem_inits] at hpast ⊢
  exact hpast.trans (List.prefix_append schedule [turn])

/-- Every commit takes its timestamp from the generator right after it. -/
theorem timestamp_lt (hfits : Fits mint schedule) :
    ∀ commit ∈ ((start mint).run schedule).commits, commit.minted.timestamp.toNat < 2 ^ 48 := by
  induction schedule using List.reverseRecOn with
  | nil => simp [run, start, commits]
  | append_singleton schedule turn ih =>
      have hlast := hfits.last
      have hbefore := ih hfits.init
      rw [run_concat] at hlast ⊢
      rcases ((start mint).run schedule).step_cases turn.1 turn.2 with
        ⟨word, hstep⟩ | hstep | ⟨word, now, -, hstep⟩
      · rw [hstep, commits_note]
        simpa [Happening.commit?] using hbefore
      · rw [hstep, commits_note]
        simpa [Happening.commit?] using hbefore
      · rw [hstep] at hlast ⊢
        rw [commits_note]
        intro commit hcommit
        rcases List.mem_append.mp hcommit with hold | hnew
        · exact hbefore commit hold
        · rw [List.mem_singleton.mp hnew]
          exact hlast

theorem mintAll_timestamp_lt (hfresh : mint.generator = Generator.fresh)
    (hfits : Fits mint schedule) :
    ∀ minted ∈ Generator.fresh.mintAll ((start mint).run schedule).met,
      minted.timestamp.toNat < 2 ^ 48 := by
  rw [← hfresh, ← (run_valid mint schedule).minted, List.forall_mem_map]
  exact timestamp_lt hfits

/-- Commits one after the other yield tokens in order. -/
theorem commits_increase (hfresh : mint.generator = Generator.fresh)
    (hfits : Fits mint schedule) :
    ((start mint).run schedule).commits.Pairwise fun first later =>
      first.token.compare later.token = .lt := by
  have hminted := (run_valid mint schedule).minted
  rw [hfresh] at hminted
  have htimes := mintAll_timestamp_lt hfresh hfits
  have hcounters := Generator.floor_le_of_mem Generator.fresh_sound (by decide) htimes
  have hpositions := Generator.mintAll_increase Generator.fresh_sound (by decide) htimes
  rw [← hminted, List.forall_mem_map] at htimes hcounters
  rw [← hminted, List.pairwise_map] at hpositions
  refine hpositions.imp_of_mem ?_
  intro first later hfirst hlater hlt
  apply Token.compare_pack_eq_lt (hcounters first hfirst).2 (hcounters later hlater).2 _ hlt
  rw [Nat.div_eq_of_lt (htimes first hfirst), Nat.div_eq_of_lt (htimes later hlater)]

theorem stats_minted_eq (hfresh : mint.generator = Generator.fresh)
    (hfits : Fits mint schedule) :
    ((start mint).run schedule).mint.stats.minted.toNat =
      ((start mint).run schedule).commits.length := by
  have hlast := hfits.last
  have htimes := mintAll_timestamp_lt hfresh hfits
  have hlength : ((start mint).run schedule).met.length =
      ((start mint).run schedule).commits.length := List.length_map _
  rw [generator_run, hfresh] at hlast
  rw [Mint.stats, generator_run, hfresh, Generator.afterAll_minted, ← hlength]
  -- There are as many commits as positions taken, and those are fewer than 2^64.
  have hfew := Generator.length_le_floor Generator.fresh_sound (by decide) htimes
  have hfloor := (Generator.afterAll_sound Generator.fresh_sound _).floor_le hlast
  change (0 + ((start mint).run schedule).met.length) % 2 ^ 64 = _
  omega

/-- The readings of the commits determine what is committed, up to the tails. -/
theorem determined_by_readings {Other : Type} [DecidableEq Other] {other : Mint}
    {others : List (Other × Host)} (hgenerator : other.generator = mint.generator)
    (hreadings : ((start other).run others).readings = ((start mint).run schedule).readings) :
    ((start other).run others).pairs = ((start mint).run schedule).pairs ∧
      ((start other).run others).mint.stats = ((start mint).run schedule).mint.stats := by
  rw [readings_eq, readings_eq] at hreadings
  constructor
  · rw [(run_valid other others).pairs_eq, (run_valid mint schedule).pairs_eq, hgenerator,
      mint.generator.mintAll_of_times hreadings]
  · rw [Mint.stats, Mint.stats, generator_run, generator_run, hgenerator,
      mint.generator.afterAll_of_times hreadings]

theorem regressions_eq_zero (hfresh : mint.generator = Generator.fresh)
    (hordered : ((start mint).run schedule).readings.Pairwise (· ≤ ·)) :
    ((start mint).run schedule).mint.stats.regressions = 0 := by
  rw [readings_eq] at hordered
  rw [Mint.stats, generator_run, hfresh]
  exact Generator.afterAll_regressions (fun hstarted => absurd hstarted (by decide)) hordered

/-- However the steps of callers of a fresh generator interleave: their tokens
differ in timestamp or counter, every caller sees its own tokens increase, and
every tail comes from the word that the same call has drawn.  All commits are
counted, and nothing but their readings has an influence on their pairs and on
the statistics; readings that do not go back count no regression. -/
theorem interleaved_calls_agree (hfresh : mint.generator = Generator.fresh)
    (hfits : Fits mint schedule) :
    ((start mint).run schedule).pairs.Nodup ∧
      (∀ caller, (((start mint).run schedule).commits.filter
        fun commit => commit.caller = caller).Pairwise fun first later =>
          first.token.compare later.token = .lt) ∧
      (∀ commit earlier,
        (.committed commit :: earlier) <:+ ((start mint).run schedule).past →
          ∃ word,
            earlier.find? (fun happening => happening.caller = commit.caller) =
              some (.drew commit.caller word) ∧
            commit.token.random.toNat = word.toNat % 2 ^ 62) ∧
      ((start mint).run schedule).mint.stats.minted.toNat =
        ((start mint).run schedule).commits.length ∧
      (∀ (Other : Type) [DecidableEq Other] (other : Mint) (others : List (Other × Host)),
        other.generator = Generator.fresh →
        ((start other).run others).readings = ((start mint).run schedule).readings →
          ((start other).run others).pairs = ((start mint).run schedule).pairs ∧
            ((start other).run others).mint.stats = ((start mint).run schedule).mint.stats) ∧
      (((start mint).run schedule).readings.Pairwise (· ≤ ·) →
        ((start mint).run schedule).mint.stats.regressions = 0) := by
  have hincrease := commits_increase hfresh hfits
  refine ⟨?_, ?_, ?_, stats_minted_eq hfresh hfits, ?_, regressions_eq_zero hfresh⟩
  · exact List.pairwise_map.mpr (hincrease.imp Token.pair_ne_of_compare_eq_lt)
  · intro caller
    exact hincrease.filter _
  · intro commit earlier hsuffix
    refine ⟨commit.minted.word, (run_valid mint schedule).words commit earlier hsuffix, ?_⟩
    exact Token.toNat_random_pack _ _ _
  · intro Other _ other others hother hreadings
    exact determined_by_readings (hother.trans hfresh.symm) hreadings

end Run

/-- A step on a host that has this word to draw and this time to read. -/
def turnOf {Caller : Type} (caller : Caller) (word now : UInt64) : Caller × Host :=
  (caller, (Mint.Occasion.scripted Security.secure (.ok word) (.ok now)).host)

/-- The draw of caller 0 is overtaken, caller 2 is refused, and caller 1 loses a
word to a fault of the clock. -/
def crossing : List (Nat × Host) :=
  [turnOf 0 7 0, turnOf 1 5 0, turnOf 1 0 1000,
    (2, (Mint.Occasion.scripted Security.weak (.ok 1) (.ok 0)).host),
    turnOf 0 0 1000, turnOf 1 3 0,
    (1, (Mint.Occasion.scripted Security.secure (.ok 0) (.error (.foreign 3))).host),
    turnOf 1 4 0, turnOf 0 9 0, turnOf 0 0 1001, turnOf 1 0 1002]

/-- One caller that meets the times of `crossing`. -/
def lone : List (Unit × Host) :=
  [turnOf () 0 0, turnOf () 0 1000, turnOf () 0 0, turnOf () 0 1000, turnOf () 0 0,
    turnOf () 0 1001, turnOf () 0 0, turnOf () 0 1002]

theorem crossing_agrees :
    Fits Mint.scripted crossing ∧
      ((start Mint.scripted).run crossing).pairs = [(1000, 0), (1000, 1), (1001, 0), (1002, 0)] ∧
      ((start Mint.scripted).run crossing).pairs.Nodup ∧
      ((start Mint.scripted).run crossing).mint.stats.minted.toNat = 4 ∧
      ((start Mint.scripted).run lone).pairs = ((start Mint.scripted).run crossing).pairs ∧
      ((start Mint.scripted).run crossing).mint.stats.regressions = 0 := by
  have hfits : Fits Mint.scripted crossing := by decide
  obtain ⟨hnodup, -, -, hminted, hother, hregressions⟩ := interleaved_calls_agree rfl hfits
  have hcount : ((start Mint.scripted).run crossing).commits.length = 4 := by decide
  have hlone := hother Unit Mint.scripted lone rfl (by decide)
  exact ⟨hfits, by decide, hnodup, hminted.trans hcount, hlone.1, hregressions (by decide)⟩

end Shared

end TokenMint
