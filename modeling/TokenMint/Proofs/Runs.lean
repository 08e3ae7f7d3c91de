import TokenMint.Proofs.Calls
import TokenMint.Proofs.Commits

/-!
# Runs of calls

A mint is called again and again.  Each call has a destination and a host of its
own: the host holds what earlier calls and everyone else have done to it, so any
list of occasions is a run.  A call either fails before it touches the generator
or commits one token.
-/

namespace TokenMint

namespace Mint

/-- A call on this host draws these bytes and then reads this time. -/
structure Meets (mint : Mint) (host : Host) (bytes : Bytes) (now : UInt64) : Prop where
  secure : Security.secure.level ≤ (mint.source.security host).level
  answers : ∃ drawn later,
    mint.source.read (some (List.replicate 8 0)) 8 host = (.ok (Status.ok, bytes), drawn) ∧
      mint.clock.now drawn = (.ok now, later)

/-- A call on this host fails with this answer and leaves the host behind. -/
inductive FailsWith (mint : Mint) (host : Host) : Except Stop Status → Host → Prop where
  /-- The source is rated below secure; nothing is drawn and no clock is read. -/
  | weak (hrating : (mint.source.security host).level < Security.secure.level) :
      FailsWith mint host (.ok (Generator.weakSource (mint.source.security host))) host
  /-- The source does not deliver. -/
  | unread {status : Status} {bytes : Bytes} {drawn : Host}
      (hrating : Security.secure.level ≤ (mint.source.security host).level)
      (hread : mint.source.read (some (List.replicate 8 0)) 8 host =
        (.ok (status, bytes), drawn))
      (hstatus : status ≠ Status.ok) : FailsWith mint host (.ok status) drawn
  /-- The clock raises a fault. -/
  | unclocked {bytes : Bytes} {drawn later : Host} {fault : Fault}
      (hrating : Security.secure.level ≤ (mint.source.security host).level)
      (hread : mint.source.read (some (List.replicate 8 0)) 8 host =
        (.ok (Status.ok, bytes), drawn))
      (hclock : mint.clock.now drawn = (.error (.raised fault), later)) :
      FailsWith mint host (.error (.raised fault)) later

/-- A call on this host fails. -/
def Fails (mint : Mint) (host : Host) : Prop :=
  ∃ answer later, mint.FailsWith host answer later

section Call

variable {mint : Mint} {host later : Host}

theorem generate_of_failsWith {answer : Except Stop Status}
    (hfails : mint.FailsWith host answer later) (held : Token) :
    generate (some held, mint, host) = (answer, (some held, mint, later)) := by
  cases hfails with
  | weak hrating =>
      have hweak := (Security.isSecure_eq_false_iff _).mpr hrating
      exact generate_of_refusal held (next_of_refusal (draw_of_weak hweak))
  | unread hrating hread hstatus =>
      have hdraw := draw_of_secure (decide_eq_true hrating)
      rw [hosted_eq (RandomSource.word_of_failed hread hstatus)] at hdraw
      exact generate_of_refusal held (next_of_refusal hdraw)
  | unclocked hrating hread hclock =>
      have hdraw := draw_of_secure (decide_eq_true hrating)
      rw [hosted_eq (RandomSource.word_of_ok hread)] at hdraw
      exact generate_of_stop held (next_of_stop hdraw (commit_of_stop _ hclock))

theorem Meets.draw_eq {bytes : Bytes} {now : UInt64} (hmeets : mint.Meets host bytes now) :
    ∃ drawn last, draw (mint, host) = (.ok (.ok (BigEndian.decode64 bytes)), (mint, drawn)) ∧
      mint.clock.now drawn = (.ok now, last) := by
  obtain ⟨hsecure, drawn, last, hread, hclock⟩ := hmeets
  refine ⟨drawn, last, ?_, hclock⟩
  rw [draw_of_secure (decide_eq_true hsecure)]
  exact hosted_eq (RandomSource.word_of_ok hread)

/-- A call that meets a word and a time commits a token.  It hands the token
over unless the warning about a forced tick stops. -/
theorem generate_of_meets {bytes : Bytes} {now : UInt64} (hmeets : mint.Meets host bytes now)
    (held : Token) :
    (∃ last, generate (some held, mint, host) =
      (.ok Status.ok,
        (some (mint.generator.commit now (BigEndian.decode64 bytes)).1.token,
          { mint with
            generator := (mint.generator.commit now (BigEndian.decode64 bytes)).2 }, last))) ∨
    (mint.generator.commit now (BigEndian.decode64 bytes)).1.forced = true ∧
      ∃ stop last, generate (some held, mint, host) =
        (.error stop,
          (some held,
            { mint with
              generator := (mint.generator.commit now (BigEndian.decode64 bytes)).2 }, last)) := by
  obtain ⟨drawn, later, hdraw, hclock⟩ := hmeets.draw_eq
  rcases next_of_commit hdraw (commit_of_reading _ hclock) with
    ⟨last, hnext⟩ | ⟨hforced, stop, last, hnext⟩
  · exact Or.inl ⟨last, generate_of_token held hnext⟩
  · exact Or.inr ⟨hforced, stop, last, generate_of_stop held hnext⟩

theorem fails_or_meets (mint : Mint) (host : Host) :
    mint.Fails host ∨ ∃ bytes now, mint.Meets host bytes now := by
  by_cases hrating : (mint.source.security host).level < Security.secure.level
  · exact Or.inl ⟨_, _, .weak hrating⟩
  have hsecure := UInt8.not_lt.mp hrating
  obtain ⟨status, bytes, drawn, hread, -⟩ :=
    mint.source.read_answers (List.replicate 8 0) 8 host
  by_cases hstatus : status = Status.ok
  · subst hstatus
    rcases Clock.now_answers mint.clock drawn with ⟨now, later, hnow⟩ | ⟨fault, later, hnow⟩
    · exact Or.inr ⟨bytes, now, hsecure, drawn, later, hread, hnow⟩
    · exact Or.inl ⟨_, _, .unclocked hsecure hread hnow⟩
  · exact Or.inl ⟨_, _, .unread hsecure hread hstatus⟩

theorem Meets.length_bytes {bytes : Bytes} {now : UInt64} (hmeets : mint.Meets host bytes now) :
    bytes.length = 8 := by
  obtain ⟨-, drawn, later, hread, -⟩ := hmeets
  obtain ⟨status, filled, _, hanswer, hlength⟩ :=
    mint.source.read_answers (List.replicate 8 0) 8 host
  rw [hread] at hanswer
  cases hanswer
  exact hlength

end Call

/-- What a call is made with: the content of its destination, and the host. -/
structure Occasion where
  held : Token
  host : Host

/-- A call that has been made: the mint before it, its outcome, what its
destination holds then, and the mint after it. -/
structure Turn where
  before : Mint
  outcome : Except Stop Status
  held : Option Token
  after : Mint

/-- The token that a call has handed over, if it has. -/
def Turn.token? (turn : Turn) : Option Token :=
  match turn.outcome with
  | .ok Status.ok => turn.held
  | _ => none

/-- The timestamp of the generator ran over during a call. -/
def Turn.Overruns (turn : Turn) : Prop :=
  turn.before.generator.Overruns turn.after.generator

instance (turn : Turn) : Decidable turn.Overruns :=
  inferInstanceAs (Decidable (turn.before.generator.Overruns turn.after.generator))

/-- A call has forced a tick, as its mint counts them. -/
def Turn.forces (turn : Turn) : Bool :=
  turn.after.stats.forcedTicks ≠ turn.before.stats.forcedTicks

/-- Make one call. -/
def turn (mint : Mint) (occasion : Occasion) : Turn :=
  let (outcome, (held, after, _)) := generate (some occasion.held, mint, occasion.host)
  ⟨mint, outcome, held, after⟩

theorem turn_eq {mint after : Mint} {occasion : Occasion} {outcome : Except Stop Status}
    {held : Option Token} {later : Host}
    (hcall : generate (some occasion.held, mint, occasion.host) =
      (outcome, (held, after, later))) :
    mint.turn occasion = ⟨mint, outcome, held, after⟩ := by
  rw [turn, hcall]

/-- A call that fails leaves its destination and the mint as they were. -/
theorem turn_of_failsWith {mint : Mint} {occasion : Occasion} {answer : Except Stop Status}
    {later : Host} (hfails : mint.FailsWith occasion.host answer later) :
    mint.turn occasion = ⟨mint, answer, some occasion.held, mint⟩ :=
  turn_eq (generate_of_failsWith hfails occasion.held)

theorem token?_of_failsWith {mint : Mint} {occasion : Occasion} {answer : Except Stop Status}
    {later : Host} (hfails : mint.FailsWith occasion.host answer later) :
    (mint.turn occasion).token? = none := by
  rw [turn_of_failsWith hfails]
  cases hfails with
  | weak => rfl
  | @unread status _ _ _ _ hstatus =>
      cases status with
      | ok => exact absurd rfl hstatus
      | failed => rfl
  | unclocked => rfl

/-- The turn of a call that commits a token. -/
theorem turn_of_meets {mint : Mint} {occasion : Occasion} {bytes : Bytes} {now : UInt64}
    (hmeets : mint.Meets occasion.host bytes now) :
    (mint.turn occasion).before = mint ∧
      (mint.turn occasion).after =
        { mint with generator := (mint.generator.commit now (BigEndian.decode64 bytes)).2 } ∧
      ∀ token, (mint.turn occasion).token? = some token →
        token = (mint.generator.commit now (BigEndian.decode64 bytes)).1.token := by
  rcases generate_of_meets hmeets occasion.held with ⟨last, hcall⟩ | ⟨-, stop, last, hcall⟩
  · rw [turn_eq hcall]
    refine ⟨rfl, rfl, ?_⟩
    intro token htoken
    exact (Option.some.inj htoken).symm
  · rw [turn_eq hcall]
    refine ⟨rfl, rfl, ?_⟩
    intro token htoken
    exact absurd htoken (by simp [Turn.token?])

theorem forces_of_failsWith {mint : Mint} {occasion : Occasion} {answer : Except Stop Status}
    {later : Host} (hfails : mint.FailsWith occasion.host answer later) :
    (mint.turn occasion).forces = false := by
  rw [turn_of_failsWith hfails, Turn.forces]
  simp

theorem forces_of_meets {mint : Mint} {occasion : Occasion} {bytes : Bytes} {now : UInt64}
    (hmeets : mint.Meets occasion.host bytes now) :
    (mint.turn occasion).forces =
      (mint.generator.commit now (BigEndian.decode64 bytes)).1.forced := by
  have hticks := Generator.commit_stats_forcedTicks mint.generator now (BigEndian.decode64 bytes)
  obtain ⟨hbefore, hafter, -⟩ := turn_of_meets hmeets
  rw [Turn.forces, hbefore, hafter, stats, stats, hticks]
  cases (mint.generator.commit now (BigEndian.decode64 bytes)).1.forced with
  | true => simp
  | false => simp

theorem token?_of_meets {mint : Mint} {occasion : Occasion} {bytes : Bytes} {now : UInt64}
    (hmeets : mint.Meets occasion.host bytes now)
    (hanswer : (mint.turn occasion).outcome = .ok Status.ok) :
    (mint.turn occasion).token? =
      some (mint.generator.commit now (BigEndian.decode64 bytes)).1.token := by
  rcases generate_of_meets hmeets occasion.held with ⟨last, hcall⟩ | ⟨-, stop, last, hcall⟩
  · rw [turn_eq hcall]
    rfl
  · rw [turn_eq hcall] at hanswer
    contradiction

/-- A call that meets a word and a time on a fresh log succeeds. -/
theorem answers_of_fresh_log {mint : Mint} {occasion : Occasion} {drawn later : Host}
    {bytes : Bytes} {now : UInt64} {stamp : Log.Stamp}
    (hsecure : Security.secure.level ≤ (mint.source.security occasion.host).level)
    (hread : mint.source.read (some (List.replicate 8 0)) 8 occasion.host =
      (.ok (Status.ok, bytes), drawn))
    (hclock : mint.clock.now drawn = (.ok now, later)) (hlog : later.log = Log.fresh stamp) :
    (mint.turn occasion).outcome = .ok Status.ok := by
  have hdraw := draw_of_secure (decide_eq_true hsecure)
  rw [hosted_eq (RandomSource.word_of_ok hread)] at hdraw
  have hcommit := commit_of_reading (BigEndian.decode64 bytes) hclock
  obtain ⟨last, hwarn⟩ := warn_of_fresh_log
    (mint.generator.commit now (BigEndian.decode64 bytes)).1
    { mint with generator := (mint.generator.commit now (BigEndian.decode64 bytes)).2 } hlog
  rw [turn_eq (generate_of_token occasion.held (next_of_warned hdraw hcommit hwarn))]

/-- Make one call after the other. -/
def turns (mint : Mint) : List Occasion → List Turn
  | [] => []
  | occasion :: rest => mint.turn occasion :: (mint.turn occasion).after.turns rest

/-- The mint after a run of calls. -/
def afterAll (mint : Mint) (occasions : List Occasion) : Mint :=
  occasions.foldl (fun mint occasion => (mint.turn occasion).after) mint

/-- The tokens that a run of calls hands over, in order. -/
def tokens (mint : Mint) (occasions : List Occasion) : List Token :=
  (mint.turns occasions).filterMap Turn.token?

theorem tokens_cons (mint : Mint) (occasion : Occasion) (rest : List Occasion) :
    mint.tokens (occasion :: rest) =
      (mint.turn occasion).token?.toList ++ (mint.turn occasion).after.tokens rest := by
  rw [tokens, turns, List.filterMap_cons]
  cases (mint.turn occasion).token? with
  | none => rfl
  | some token => rfl

theorem afterAll_cons (mint : Mint) (occasion : Occasion) (rest : List Occasion) :
    mint.afterAll (occasion :: rest) = (mint.turn occasion).after.afterAll rest :=
  rfl

/-- A failing call adds nothing to a run. -/
theorem tokens_cons_of_fails {mint : Mint} {occasion : Occasion} (rest : List Occasion)
    (hfails : mint.Fails occasion.host) :
    mint.tokens (occasion :: rest) = mint.tokens rest := by
  obtain ⟨answer, later, hfails⟩ := hfails
  rw [tokens_cons, token?_of_failsWith hfails, turn_of_failsWith hfails]
  rfl

theorem afterAll_cons_of_fails {mint : Mint} {occasion : Occasion} (rest : List Occasion)
    (hfails : mint.Fails occasion.host) :
    mint.afterAll (occasion :: rest) = mint.afterAll rest := by
  obtain ⟨answer, later, hfails⟩ := hfails
  rw [afterAll_cons, turn_of_failsWith hfails]

/-- The calls of a run that succeed draw these bytes and read these times; the
others fail. -/
inductive Mints : Mint → List Occasion → List (Bytes × UInt64) → Prop where
  | nil {mint : Mint} : Mints mint [] []
  | fail {mint : Mint} {occasion : Occasion} {rest : List Occasion}
      {met : List (Bytes × UInt64)} (hfails : mint.Fails occasion.host)
      (hrest : Mints mint rest met) : Mints mint (occasion :: rest) met
  | mint {mint : Mint} {occasion : Occasion} {rest : List Occasion} {bytes : Bytes}
      {now : UInt64} {met : List (Bytes × UInt64)} (hmeets : mint.Meets occasion.host bytes now)
      (hanswer : (mint.turn occasion).outcome = .ok Status.ok)
      (hrest : Mints (mint.turn occasion).after rest met) :
      Mints mint (occasion :: rest) ((bytes, now) :: met)

section Mints

variable {mint : Mint} {occasions : List Occasion} {met : List (Bytes × UInt64)}

/-- Every run in which all calls succeed is described in this way. -/
theorem exists_mints
    (hanswers : ∀ turn ∈ mint.turns occasions, turn.outcome = .ok Status.ok) :
    ∃ met, met.length = occasions.length ∧ mint.Mints occasions met := by
  induction occasions generalizing mint with
  | nil => exact ⟨[], rfl, .nil⟩
  | cons occasion rest ih =>
      rw [turns, List.forall_mem_cons] at hanswers
      obtain ⟨met, hlength, hrest⟩ := ih hanswers.2
      rcases fails_or_meets mint occasion.host with
        ⟨answer, later, hfails⟩ | ⟨bytes, now, hmeets⟩
      · have htoken := token?_of_failsWith hfails
        rw [Turn.token?, hanswers.1, turn_of_failsWith hfails] at htoken
        contradiction
      · refine ⟨(bytes, now) :: met, ?_, .mint hmeets hanswers.1 hrest⟩
        rw [List.length_cons, List.length_cons, hlength]

theorem Mints.length_bytes (hmints : mint.Mints occasions met) :
    ∀ drawn ∈ met, drawn.1.length = 8 := by
  induction hmints with
  | nil => simp
  | fail _ _ ih => exact ih
  | mint hmeets _ _ ih => exact List.forall_mem_cons.mpr ⟨hmeets.length_bytes, ih⟩

/-- What a run hands over is a matter of what its successful calls meet. -/
theorem Mints.tokens_eq (hmints : mint.Mints occasions met) :
    mint.tokens occasions =
      (mint.generator.mintAll (met.map fun met => (met.2, BigEndian.decode64 met.1))).map
        Minted.token := by
  induction hmints with
  | nil => rfl
  | fail hfails hrest ih => rw [tokens_cons_of_fails _ hfails, ih]
  | @mint mint occasion rest bytes now met hmeets hanswer hrest ih =>
      obtain ⟨-, hafter, -⟩ := turn_of_meets hmeets
      rw [tokens_cons, token?_of_meets hmeets hanswer, ih, hafter]
      rfl

/-- The calls of a run that reach their clock draw these bytes and read these
times, and each of them commits a token.  A log target that stops the warning about
a forced tick may still keep the token from its caller.  The other calls fail. -/
inductive Commits : Mint → List Occasion → List (Bytes × UInt64) → Prop where
  | nil {mint : Mint} : Commits mint [] []
  | fail {mint : Mint} {occasion : Occasion} {rest : List Occasion}
      {met : List (Bytes × UInt64)} (hfails : mint.Fails occasion.host)
      (hrest : Commits mint rest met) : Commits mint (occasion :: rest) met
  | commit {mint : Mint} {occasion : Occasion} {rest : List Occasion} {bytes : Bytes}
      {now : UInt64} {met : List (Bytes × UInt64)} (hmeets : mint.Meets occasion.host bytes now)
      (hrest : Commits (mint.turn occasion).after rest met) :
      Commits mint (occasion :: rest) ((bytes, now) :: met)

/-- Every run is described in this way. -/
theorem exists_commits (mint : Mint) (occasions : List Occasion) :
    ∃ met, mint.Commits occasions met := by
  induction occasions generalizing mint with
  | nil => exact ⟨[], .nil⟩
  | cons occasion rest ih =>
      rcases fails_or_meets mint occasion.host with hfails | ⟨bytes, now, hmeets⟩
      · obtain ⟨met, hrest⟩ := ih mint
        exact ⟨met, .fail hfails hrest⟩
      · obtain ⟨met, hrest⟩ := ih (mint.turn occasion).after
        exact ⟨(bytes, now) :: met, .commit hmeets hrest⟩

/-- The same call over and over commits the same word and time over and over, since it does
not matter to a call where its generator stands. -/
theorem Meets.commits_replicate {occasion : Occasion} {bytes : Bytes} {now : UInt64}
    (hmeets : mint.Meets occasion.host bytes now) (n : Nat) :
    mint.Commits (List.replicate n occasion) (List.replicate n (bytes, now)) := by
  induction n generalizing mint with
  | zero => exact .nil
  | succ n ih =>
      rw [List.replicate_succ, List.replicate_succ]
      refine .commit hmeets (ih ?_)
      rw [(turn_of_meets hmeets).2.1]
      exact ⟨hmeets.secure, hmeets.answers⟩

theorem Mints.commits (hmints : mint.Mints occasions met) : mint.Commits occasions met := by
  induction hmints with
  | nil => exact .nil
  | fail hfails _ ih => exact .fail hfails ih
  | mint hmeets _ _ ih => exact .commit hmeets ih

theorem Commits.afterAll_eq (hcommits : mint.Commits occasions met) :
    (mint.afterAll occasions).generator =
      mint.generator.afterAll (met.map fun met => (met.2, BigEndian.decode64 met.1)) := by
  induction hcommits with
  | nil => rfl
  | fail hfails _ ih => rw [afterAll_cons_of_fails _ hfails, ih]
  | commit hmeets _ ih =>
      obtain ⟨-, hafter, -⟩ := turn_of_meets hmeets
      rw [afterAll_cons, ih, hafter]
      rfl

/-- A run forces as many ticks as its generator does from what the calls meet. -/
theorem Commits.countP_forces (hcommits : mint.Commits occasions met) :
    (mint.turns occasions).countP Turn.forces =
      (mint.generator.mintAll (met.map fun met => (met.2, BigEndian.decode64 met.1))).countP
        Minted.forced := by
  induction hcommits with
  | nil => rfl
  | fail hfails _ ih =>
      obtain ⟨answer, later, hfails⟩ := hfails
      rw [turns, List.countP_cons, forces_of_failsWith hfails, turn_of_failsWith hfails, ih]
      rfl
  | commit hmeets _ ih =>
      obtain ⟨-, hafter, -⟩ := turn_of_meets hmeets
      rw [turns, List.countP_cons, forces_of_meets hmeets, ih, hafter, List.map_cons,
        Generator.mintAll, List.countP_cons]

theorem Mints.afterAll_eq (hmints : mint.Mints occasions met) :
    (mint.afterAll occasions).generator =
      mint.generator.afterAll (met.map fun met => (met.2, BigEndian.decode64 met.1)) :=
  hmints.commits.afterAll_eq

end Mints

/-- A mint with a scripted source and a clock of the host. -/
def scripted : Mint :=
  ⟨.device 0, .scripted 0, Generator.fresh⟩

/-- A call on a host with one source and one clock that give these answers. -/
def Occasion.scripted (security : Security) (word : Except Status UInt64)
    (reading : Except Fault UInt64) : Occasion :=
  ⟨Token.nil,
    { Host.fresh (Log.fresh ⟨0, 0, 0⟩) ⟨[], [], [], [], []⟩ (Environment.ofIdentity default) with
      clocks := [.series [reading]]
      sources := [ScriptedRandom.start security [word]] }⟩

/-- The clock goes on, fails, goes back, and goes on again; one source is too
weak and another does not deliver. -/
def jitter : List Occasion :=
  [.scripted Security.secure (.ok 7) (.ok 1000),
    .scripted Security.secure (.ok 1) (.error (.foreign 3)),
    .scripted Security.secure (.ok 5) (.ok 900),
    .scripted Security.weak (.ok 5) (.ok 2000),
    .scripted Security.strong (.error (Status.unavailable [])) (.ok 2000),
    .scripted Security.strong (.ok 0) (.ok 2000)]

theorem jitter_mints :
    scripted.Mints jitter
      [(BigEndian.encode64 7, 1000), (BigEndian.encode64 5, 900),
        (BigEndian.encode64 0, 2000)] :=
  .mint ⟨by decide, _, _, rfl, rfl⟩ rfl
    (.fail ⟨_, _, .unclocked (by decide) rfl rfl⟩
      (.mint ⟨by decide, _, _, rfl, rfl⟩ rfl
        (.fail ⟨_, _, .weak (by decide)⟩
          (.fail ⟨_, _, .unread (by decide) rfl (by decide)⟩
            (.mint ⟨by decide, _, _, rfl, rfl⟩ rfl .nil)))))

end Mint

end TokenMint
