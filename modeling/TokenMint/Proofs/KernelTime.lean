import TokenMint.Proofs.Expiry
import TokenMint.Proofs.Runs

/-!
# Time as the kernel gives it

The clock of the kernel reads the whole milliseconds since the start of 1970, and nothing
before it.  Later times have no earlier readings, so a mint at this clock meets a setback
only if the kernel's time goes back.  As long as it does not, every millisecond by which a
mint is ahead of its clock comes from a tick that was forced.
-/

namespace TokenMint

namespace Timespec

/-- A time in its normal form: less than a second of nanoseconds, none of them negative, and
milliseconds that fit 64 bits. -/
def IsNormal (time : Timespec) : Prop :=
  0 ≤ time.nanos ∧ time.nanos < 1000000000 ∧ time.seconds * 1000 + 999 < (UInt64.size : Int)

instance (time : Timespec) : Decidable time.IsNormal :=
  inferInstanceAs (Decidable (_ ∧ _))

/-- The order of times: by their seconds, and then by their nanoseconds. -/
def NotAfter (a b : Timespec) : Prop :=
  a.seconds < b.seconds ∨ a.seconds = b.seconds ∧ a.nanos ≤ b.nanos

instance (a b : Timespec) : Decidable (a.NotAfter b) :=
  inferInstanceAs (Decidable (_ ∨ _))

/-- The whole milliseconds from the start of 1970 to a time, rounded down; none before. -/
def elapsedMillis (time : Timespec) : Int :=
  max 0 ((time.seconds * 1000000000 + time.nanos) / 1000000)

theorem elapsedMillis_le {a b : Timespec} (ha : a.IsNormal) (hb : b.IsNormal)
    (hab : a.NotAfter b) : a.elapsedMillis ≤ b.elapsedMillis := by
  obtain ⟨-, haLess, -⟩ := ha
  obtain ⟨hbNonneg, -, -⟩ := hb
  have hnanos : a.seconds * 1000000000 + a.nanos ≤ b.seconds * 1000000000 + b.nanos := by
    rcases hab with hlt | ⟨heq, hle⟩
    · omega
    · omega
  have hmillis := Int.ediv_le_ediv (by decide : (0 : Int) < 1000000) hnanos
  rw [elapsedMillis, elapsedMillis]
  omega

end Timespec

namespace Clock

/-- A number that fits 64 bits is the value of its word. -/
theorem toNat_word {value : Int} (hnonneg : 0 ≤ value) (hfits : value < (UInt64.size : Int)) :
    value.toInt64.toUInt64.toNat = value.toNat := by
  have hword : value.toInt64.toUInt64.toNat = (BitVec.ofInt 64 value).toNat := rfl
  have hsize : (UInt64.size : Int) = 18446744073709551616 := rfl
  rw [hword, BitVec.toNat_ofInt]
  omega

theorem toNat_millis {time : Timespec} (hnormal : time.IsNormal) :
    ((millis time).toNat : Int) = time.elapsedMillis := by
  obtain ⟨hnonneg, hless, hfits⟩ := hnormal
  have hsize : (UInt64.size : Int) = 18446744073709551616 := rfl
  rw [millis, Timespec.elapsedMillis]
  split
  case isTrue hbefore =>
    rw [UInt64.toNat_zero]
    omega
  case isFalse hsince =>
    have hseconds := toNat_word (Int.not_lt.mp hsince) (by omega)
    have hnanos := toNat_word hnonneg (by omega)
    rw [UInt64.toNat_add, UInt64.toNat_mul, UInt64.toNat_div, hseconds, hnanos]
    change (((time.seconds.toNat * 1000 % 2 ^ 64 + time.nanos.toNat / 1000000) % 2 ^ 64 : Nat) :
      Int) = _
    omega

theorem millis_le {a b : Timespec} (ha : a.IsNormal) (hb : b.IsNormal) (hab : a.NotAfter b) :
    millis a ≤ millis b := by
  have hle := Timespec.elapsedMillis_le ha hb hab
  rw [← toNat_millis ha, ← toNat_millis hb] at hle
  exact UInt64.le_iff_toNat_le.mpr (Int.ofNat_le.mp hle)

/-- The clock of the kernel passes on what the kernel answers. -/
theorem now_kernel (host : Host) :
    Clock.kernel.now host =
      ((ofKernelAnswer host.kernel.readClock.1).mapError Stop.raised,
        { host with kernel := host.kernel.readClock.2 }) :=
  now_apply .kernel host

end Clock

namespace Generator

/-- What holds of a generator after so many forced ticks, if its readings have not gone back.
Its lead over the last reading, modulo 2^64, is due to these ticks. -/
structure Paced (ticks : Nat) (generator : Generator) : Prop where
  drift : generator.stats.driftMs = (generator.lastMs - generator.lastWall).toInt64
  lead : (generator.lastMs - generator.lastWall).toNat ≤ ticks
  counted : generator.stats.forcedTicks.toNat = ticks

theorem fresh_paced : Paced 0 fresh :=
  ⟨rfl, Nat.le_refl 0, rfl⟩

section Paced

variable {ticks : Nat} {generator : Generator} {now : UInt64}

/-- The three ways to commit keep the lead below the forced ticks. -/
theorem Paced.commit (hpaced : Paced ticks generator) (hforward : generator.lastWall ≤ now)
    (word : UInt64)
    (hfits : ticks + (if (generator.commit now word).1.forced then 1 else 0) < 2 ^ 64) :
    Paced (ticks + if (generator.commit now word).1.forced then 1 else 0)
      (generator.commit now word).2 := by
  have hwall := commit_lastWall generator now word
  have hlead := hpaced.lead
  have hstep : generator.lastWall.toNat ≤ now.toNat := UInt64.le_iff_toNat_le.mp hforward
  refine ⟨?_, ?_, ?_⟩
  · rw [hwall]
    exact commit_stats_driftMs generator now word
  · rw [hwall]
    obtain ⟨-, ⟨-, hlast, -, -⟩ | ⟨⟨-, hbehind⟩, -, hlast, -, hcalm⟩ |
        ⟨⟨-, hbehind⟩, -, hlast, -, htick⟩⟩ := commit_cases generator now word
    · rw [hlast, UInt64.sub_self]
      exact Nat.zero_le _
    · have hle := UInt64.le_iff_toNat_le.mp hbehind
      rw [UInt64.toNat_sub_of_le _ _ (UInt64.le_trans hforward hbehind)] at hlead
      rw [hlast, hcalm, UInt64.toNat_sub_of_le _ _ hbehind]
      omega
    · have hle := UInt64.le_iff_toNat_le.mp hbehind
      have hwidth := generator.lastMs.toNat_lt
      -- The timestamp may run over here; its lead over the reading does not.
      rw [UInt64.toNat_sub_of_le _ _ (UInt64.le_trans hforward hbehind)] at hlead
      rw [hlast, htick, if_pos rfl, UInt64.toNat_sub, UInt64.toNat_add, UInt64.toNat_one]
      omega
  · rw [toNat_commit_forcedTicks, hpaced.counted]
    exact Nat.mod_eq_of_lt hfits

theorem Paced.afterAll (hpaced : Paced ticks generator) {met : List (UInt64 × UInt64)}
    (hforward : ∀ now ∈ met.map Prod.fst, generator.lastWall ≤ now)
    (hordered : (met.map Prod.fst).Pairwise (· ≤ ·))
    (hfits : ticks + (generator.mintAll met).countP Minted.forced < 2 ^ 64) :
    Paced (ticks + (generator.mintAll met).countP Minted.forced) (generator.afterAll met) := by
  induction met generalizing ticks generator with
  | nil => exact hpaced
  | cons head rest ih =>
      rw [List.map_cons, List.pairwise_cons] at hordered
      rw [mintAll, List.countP_cons, Nat.add_comm (List.countP _ _), ← Nat.add_assoc] at hfits ⊢
      have hnext := hpaced.commit (hforward head.1 List.mem_cons_self) head.2 (by omega)
      exact ih hnext (by rw [commit_lastWall]; exact hordered.1) hordered.2 hfits

/-- The drift is neither negative nor above the forced ticks, as long as these are fewer
than 2^63. -/
theorem Paced.drift_bounds (hpaced : Paced ticks generator) (hfew : ticks < 2 ^ 63) :
    0 ≤ generator.stats.driftMs.toInt ∧
      generator.stats.driftMs.toInt ≤ generator.stats.forcedTicks.toNat := by
  have hlead := hpaced.lead
  rw [hpaced.drift, hpaced.counted, Token.toInt_toInt64_of_lt (by omega)]
  omega

/-- Readings that never go back, in a run from a fresh generator. -/
theorem fresh_drift_bounds {met : List (UInt64 × UInt64)}
    (hordered : (met.map Prod.fst).Pairwise (· ≤ ·))
    (hfew : (fresh.mintAll met).countP Minted.forced < 2 ^ 63) :
    0 ≤ (fresh.afterAll met).stats.driftMs.toInt ∧
      (fresh.afterAll met).stats.driftMs.toInt ≤
        (fresh.afterAll met).stats.forcedTicks.toNat := by
  have hpaced := fresh_paced.afterAll (fun _ _ => UInt64.zero_le) hordered (by omega)
  exact hpaced.drift_bounds (by omega)

end Paced

/-- Unless the timestamp runs over, it does not go back, and a forced tick moves it on. -/
theorem lastMs_add_forced_le {generator : Generator} {now : UInt64} (word : UInt64)
    (hstart : generator.started = true ∨ generator.lastMs = 0)
    (hwithin : ¬ Overruns generator (generator.commit now word).2) :
    generator.lastMs.toNat + (if (generator.commit now word).1.forced then 1 else 0) ≤
      (generator.commit now word).2.lastMs.toNat := by
  obtain ⟨-, ⟨hahead, hlast, -, hcalm⟩ | ⟨-, -, hlast, -, hcalm⟩ | ⟨-, -, hlast, -, htick⟩⟩ :=
    commit_cases generator now word
  · rw [hlast, hcalm, if_neg Bool.false_ne_true, Nat.add_zero]
    rcases hstart with hstarted | hzero
    · have hlt := hahead.resolve_left (by simp [hstarted])
      exact Nat.le_of_lt (UInt64.lt_iff_toNat_lt.mp hlt)
    · rw [hzero]
      exact Nat.zero_le _
  · rw [hlast, hcalm]
    exact Nat.le_refl _
  · have hmore : generator.lastMs ≠ 0xffffffffffffffff := by
      intro hgreatest
      refine hwithin ⟨hgreatest, ?_⟩
      rw [hlast, hgreatest]
      decide
    have hne := mt UInt64.toNat_inj.mp hmore
    have hlt := generator.lastMs.toNat_lt
    change generator.lastMs.toNat ≠ 2 ^ 64 - 1 at hne
    rw [hlast, htick, if_pos rfl, UInt64.toNat_add, UInt64.toNat_one]
    omega

end Generator

namespace Mint

/-- What the kernel's clock answers to a call on this host, if the call draws a word and so
comes to read the time. -/
def clockAnswer? (mint : Mint) (host : Host) : Option (KernelAnswer Timespec) :=
  match draw (mint, host) with
  | (.ok (.ok _), _, drawn) => some drawn.kernel.readClock.1
  | _ => none

/-- The times that the kernel's clock gives to the calls of a run, in order.  A call that
fails before or at the clock gets none. -/
def kernelTimes (mint : Mint) : List Occasion → List Timespec
  | [] => []
  | occasion :: rest =>
      match mint.clockAnswer? occasion.host with
      | some (.ok time) => time :: (mint.turn occasion).after.kernelTimes rest
      | _ => (mint.turn occasion).after.kernelTimes rest

theorem kernelTimes_append (mint : Mint) (front back : List Occasion) :
    mint.kernelTimes (front ++ back) =
      mint.kernelTimes front ++ (mint.afterAll front).kernelTimes back := by
  induction front generalizing mint with
  | nil => rfl
  | cons occasion rest ih =>
      rw [List.cons_append, kernelTimes, kernelTimes, afterAll_cons, ih]
      split
      · rfl
      · rfl

section Call

variable {mint : Mint} {host : Host} {bytes : Bytes} {now : UInt64}

/-- A call that meets a word and a time has got this time from the kernel. -/
theorem Meets.clockAnswer_eq (hmeets : mint.Meets host bytes now) (hclock : mint.clock = .kernel) :
    ∃ time, mint.clockAnswer? host = some (.ok time) ∧ now = Clock.millis time := by
  obtain ⟨drawn, later, hdraw, hnow⟩ := hmeets.draw_eq
  rw [hclock, Clock.now_kernel] at hnow
  rw [clockAnswer?, hdraw]
  cases hanswer : drawn.kernel.readClock.1 with
  | error errno =>
      rw [hanswer] at hnow
      cases hnow
  | ok time =>
      rw [hanswer] at hnow
      cases hnow
      exact ⟨time, congrArg some hanswer, rfl⟩

/-- A call that fails has got no time from the kernel. -/
theorem Fails.clockAnswer_ne (hfails : mint.Fails host) (hclock : mint.clock = .kernel)
    (time : Timespec) : mint.clockAnswer? host ≠ some (.ok time) := by
  obtain ⟨answer, later, hfails⟩ := hfails
  rw [clockAnswer?]
  cases hfails with
  | weak hrating =>
      rw [draw_of_weak ((Security.isSecure_eq_false_iff _).mpr hrating)]
      simp
  | unread hrating hread hstatus =>
      rw [draw_of_secure (decide_eq_true hrating),
        hosted_eq (RandomSource.word_of_failed hread hstatus)]
      simp
  | @unclocked _ drawn _ _ hrating hread hnow =>
      rw [draw_of_secure (decide_eq_true hrating), hosted_eq (RandomSource.word_of_ok hread)]
      rw [hclock, Clock.now_kernel] at hnow
      simp only [ne_eq, Option.some.injEq]
      intro hanswer
      rw [hanswer] at hnow
      cases hnow

end Call

section Run

variable {mint : Mint} {occasions : List Occasion} {met : List (Bytes × UInt64)}

/-- The readings of a run are the times that the kernel gives to it. -/
theorem Commits.readings_eq (hcommits : mint.Commits occasions met)
    (hclock : mint.clock = .kernel) :
    met.map Prod.snd = (mint.kernelTimes occasions).map Clock.millis := by
  induction hcommits with
  | nil => rfl
  | @fail mint occasion rest met hfails hrest ih =>
      have hnone := hfails.clockAnswer_ne hclock
      have hskip : mint.kernelTimes (occasion :: rest) = mint.kernelTimes rest := by
        obtain ⟨answer, later, hfailsWith⟩ := hfails
        rw [kernelTimes, turn_of_failsWith hfailsWith]
        split
        case h_1 time hanswer => exact absurd hanswer (hnone time)
        case h_2 => rfl
      rw [hskip, ih hclock]
  | @commit mint occasion rest bytes now met hmeets hrest ih =>
      obtain ⟨time, hanswer, hnow⟩ := hmeets.clockAnswer_eq hclock
      obtain ⟨-, hafter, -⟩ := turn_of_meets hmeets
      have hkept : (mint.turn occasion).after.clock = .kernel := by
        rw [hafter]
        exact hclock
      rw [kernelTimes, hanswer, List.map_cons, List.map_cons, ih hkept, hnow]

/-- Unless its timestamp runs over, a run forces no more ticks than that timestamp has gone
on by. -/
theorem Commits.countP_forces_le (hcommits : mint.Commits occasions met)
    (hstart : mint.generator.started = true ∨ mint.generator.lastMs = 0)
    (hwithin : ∀ turn ∈ mint.turns occasions, ¬ turn.Overruns) :
    mint.generator.lastMs.toNat + (mint.turns occasions).countP Turn.forces ≤
      (mint.afterAll occasions).generator.lastMs.toNat := by
  induction hcommits with
  | nil => exact Nat.le_refl _
  | @fail mint occasion rest met hfails hrest ih =>
      rw [turns, List.forall_mem_cons] at hwithin
      obtain ⟨answer, later, hfailsWith⟩ := hfails
      rw [turns, List.countP_cons, forces_of_failsWith hfailsWith, afterAll_cons,
        turn_of_failsWith hfailsWith]
      rw [turn_of_failsWith hfailsWith] at hwithin
      exact ih hstart hwithin.2
  | @commit mint occasion rest bytes now met hmeets hrest ih =>
      rw [turns, List.forall_mem_cons] at hwithin
      obtain ⟨hbefore, hafter, -⟩ := turn_of_meets hmeets
      have hgenerator : (mint.turn occasion).after.generator =
          (mint.generator.commit now (BigEndian.decode64 bytes)).2 := congrArg generator hafter
      have hstarted : (mint.turn occasion).after.generator.started = true := by
        rw [hgenerator]
        exact Generator.commit_started _ _ _
      have hfirst := hwithin.1
      rw [Turn.Overruns, hbefore, hgenerator] at hfirst
      have hmoved := Generator.lastMs_add_forced_le (BigEndian.decode64 bytes) hstart hfirst
      have hlater := ih (Or.inl hstarted) hwithin.2
      rw [hgenerator] at hlater
      rw [turns, List.countP_cons, forces_of_meets hmeets, afterAll_cons]
      omega

/-- Kernel times that do not go back make readings that do not go back. -/
theorem Commits.readings_ordered (hcommits : mint.Commits occasions met)
    (hclock : mint.clock = .kernel)
    (hnormal : ∀ time ∈ mint.kernelTimes occasions, time.IsNormal)
    (hordered : (mint.kernelTimes occasions).Pairwise Timespec.NotAfter) :
    (met.map Prod.snd).Pairwise (· ≤ ·) := by
  rw [hcommits.readings_eq hclock, List.pairwise_map]
  exact hordered.imp_of_mem fun ha hb => Clock.millis_le (hnormal _ ha) (hnormal _ hb)

/-- The readings of a run in numbers. -/
theorem Commits.readings_toNat (hcommits : mint.Commits occasions met)
    (hclock : mint.clock = .kernel)
    (hnormal : ∀ time ∈ mint.kernelTimes occasions, time.IsNormal) :
    met.map (fun drawn => (drawn.2.toNat : Int)) =
      (mint.kernelTimes occasions).map Timespec.elapsedMillis := by
  have hreadings := congrArg (List.map fun now : UInt64 => (now.toNat : Int))
    (hcommits.readings_eq hclock)
  rw [List.map_map, List.map_map] at hreadings
  refine hreadings.trans (List.map_congr_left fun time htime => ?_)
  exact Clock.toNat_millis (hnormal time htime)

end Run

/-- A mint at the kernel's clock sees time as the kernel gives it.  A time in normal form
reads as its whole milliseconds, and as zero before 1970, so these are the readings of every
run, whichever calls fail in between.  If the kernel's times do not go back, no setback is
counted at any point of the run.  The drift is then neither negative nor above the number of
forced ticks wherever fewer than 2^63 ticks have been forced.  That is so at every point with a
timestamp below 2^63, unless the timestamp has run over before. -/
theorem kernel_time_seen_as_given :
    (∀ (host : Host) (time : Timespec), host.kernel.readClock.1 = .ok time → time.IsNormal →
      ∃ now later, Clock.kernel.now host = (.ok now, later) ∧
        (now.toNat : Int) = max 0 ((time.seconds * 1000000000 + time.nanos) / 1000000)) ∧
    ∀ (mint : Mint) (occasions : List Occasion), mint.clock = .kernel →
      mint.generator = Generator.fresh →
      (∀ time ∈ mint.kernelTimes occasions, time.IsNormal) →
      (mint.kernelTimes occasions).Pairwise Timespec.NotAfter →
      ∀ point, point <+: occasions →
        (∃ met, mint.Commits point met ∧ met.map (fun drawn => (drawn.2.toNat : Int)) =
          (mint.kernelTimes point).map fun time =>
            max 0 ((time.seconds * 1000000000 + time.nanos) / 1000000)) ∧
        (mint.afterAll point).stats.regressions = 0 ∧
        ((mint.turns point).countP Turn.forces < 2 ^ 63 →
          0 ≤ (mint.afterAll point).stats.driftMs.toInt ∧
            (mint.afterAll point).stats.driftMs.toInt ≤
              (mint.afterAll point).stats.forcedTicks.toNat) ∧
        ((∀ turn ∈ mint.turns point, ¬ turn.Overruns) →
          (mint.afterAll point).generator.lastMs.toNat < 2 ^ 63 →
            (mint.turns point).countP Turn.forces < 2 ^ 63) := by
  constructor
  · intro host time hread hnormal
    refine ⟨Clock.millis time, { host with kernel := host.kernel.readClock.2 }, ?_,
      Clock.toNat_millis hnormal⟩
    rw [Clock.now_kernel, hread]
    rfl
  · intro mint occasions hclock hfresh hnormal hordered point hpoint
    obtain ⟨back, rfl⟩ := hpoint
    rw [kernelTimes_append] at hnormal hordered
    have hnormal' := (List.forall_mem_append.mp hnormal).1
    have hordered' := (List.pairwise_append.mp hordered).1
    obtain ⟨met, hcommits⟩ := mint.exists_commits point
    have hreadings := hcommits.readings_ordered hclock hnormal' hordered'
    have hafter := hcommits.afterAll_eq
    have hforces := hcommits.countP_forces
    rw [hfresh] at hafter hforces
    have htimes : (met.map fun drawn => (drawn.2, BigEndian.decode64 drawn.1)).map Prod.fst =
        met.map Prod.snd := List.map_map
    refine ⟨⟨met, hcommits, hcommits.readings_toNat hclock hnormal'⟩, ?_, ?_, ?_⟩
    · have hunstarted : Generator.fresh.started ≠ true := by decide
      rw [stats, hafter, Generator.afterAll_regressions (absurd · hunstarted)
        (htimes ▸ hreadings)]
      rfl
    · intro hfew
      rw [stats, hafter]
      exact Generator.fresh_drift_bounds (htimes ▸ hreadings) (hforces ▸ hfew)
    · intro hwithin hlow
      have hticks := hcommits.countP_forces_le (Or.inr (congrArg Generator.lastMs hfresh)) hwithin
      omega

/-- A call on a host whose kernel gives this answer at its clock. -/
def Occasion.atKernel (word : Except Status UInt64) (answer : KernelAnswer Timespec) : Occasion :=
  ⟨Token.nil,
    { Host.fresh (Log.fresh ⟨0, 0, 0⟩) ⟨[], [], [], [answer], []⟩
        (Environment.ofIdentity default) with
      sources := [ScriptedRandom.start Security.secure [word]] }⟩

/-- From before 1970 over its start, with a clock and a source that fail in between. -/
def overEpoch : List Occasion :=
  [.atKernel (.ok 3) (.ok ⟨-1, 999999999⟩),
    .atKernel (.ok 1) (.error Errno.ioFailure),
    .atKernel (.ok 4) (.ok ⟨0, 999999⟩),
    .atKernel (.error (Status.unavailable [])) (.ok ⟨9, 0⟩),
    .atKernel (.ok 1) (.ok ⟨1, 500000000⟩)]

/-- Three times of the kernel are read as 0, 0 and 1500 ms, without a setback or a drift. -/
theorem time_over_epoch_seen :
    let mint : Mint := ⟨.kernel, .scripted 0, Generator.fresh⟩
    mint.kernelTimes overEpoch = [⟨-1, 999999999⟩, ⟨0, 999999⟩, ⟨1, 500000000⟩] ∧
      (∃ now later, Clock.kernel.now (Occasion.atKernel (.ok 3) (.ok ⟨-1, 999999999⟩)).host =
        (.ok now, later) ∧ (now.toNat : Int) = 0) ∧
      (∃ met, mint.Commits overEpoch met ∧
        met.map (fun drawn => (drawn.2.toNat : Int)) = [0, 0, 1500]) ∧
      (mint.afterAll overEpoch).stats.regressions = 0 ∧
      0 ≤ (mint.afterAll overEpoch).stats.driftMs.toInt ∧
      (mint.afterAll overEpoch).stats.driftMs.toInt ≤
        (mint.afterAll overEpoch).stats.forcedTicks.toNat := by
  intro mint
  have htimes : mint.kernelTimes overEpoch =
      [⟨-1, 999999999⟩, ⟨0, 999999⟩, ⟨1, 500000000⟩] := by rfl
  obtain ⟨hreading, hrun⟩ := kernel_time_seen_as_given
  obtain ⟨hmet, hsetbacks, hdrift, -⟩ := hrun mint overEpoch rfl rfl
    (by rw [htimes]; decide) (by rw [htimes]; decide) overEpoch (List.prefix_refl _)
  rw [htimes] at hmet
  exact ⟨htimes, hreading _ ⟨-1, 999999999⟩ rfl (by decide), hmet, hsetbacks,
    hdrift (by decide)⟩

/-- A kernel whose time stands at one millisecond. -/
def atFirstMilli : Occasion :=
  .atKernel (.ok 0) (.ok ⟨0, 1000000⟩)

theorem meets_atFirstMilli (generator : Generator) :
    Meets ⟨.kernel, .scripted 0, generator⟩ atFirstMilli.host (BigEndian.encode64 0) 1 :=
  ⟨UInt8.le_refl _, _, _, rfl, rfl⟩

theorem kernelTimes_atFirstMilli (generator : Generator) (n : Nat) :
    kernelTimes ⟨.kernel, .scripted 0, generator⟩ (List.replicate n atFirstMilli) =
      List.replicate n ⟨0, 1000000⟩ := by
  induction n generalizing generator with
  | zero => rfl
  | succ n ih =>
      have hmeets := meets_atFirstMilli generator
      have hanswer : clockAnswer? ⟨.kernel, .scripted 0, generator⟩ atFirstMilli.host =
          some (.ok ⟨0, 1000000⟩) := rfl
      rw [List.replicate_succ, List.replicate_succ, kernelTimes, hanswer,
        (turn_of_meets hmeets).2.1]
      exact congrArg _ (ih _)

/-- The generator after so many calls. -/
theorem generator_atFirstMilli (n : Nat) :
    ∃ met : List (UInt64 × UInt64), met.length = n ∧ (∀ drawn ∈ met, drawn.1 = 1) ∧
      ∃ word,
        (afterAll ⟨.kernel, .scripted 0, Generator.fresh⟩
          (List.replicate (n + 1) atFirstMilli)).generator =
            ((Generator.fresh.afterAll met).commit 1 word).2 := by
  let word := BigEndian.decode64 (BigEndian.encode64 0)
  have hcommits := (meets_atFirstMilli Generator.fresh).commits_replicate (n + 1)
  refine ⟨List.replicate n (1, word), List.length_replicate, ?_, word, ?_⟩
  · intro drawn hdrawn
    rw [List.eq_of_mem_replicate hdrawn]
  · rw [hcommits.afterAll_eq, List.map_replicate, List.replicate_succ', Generator.afterAll_concat]

/-- Where the kernel's time stands at one millisecond, the timestamp runs over to zero with the
token before which 2^76 - 4096 others were minted.  It is below 2^63 then, and behind the
kernel's time by the millisecond that the drift shows as negative. -/
theorem drift_negative_after_overrun :
    let mint : Mint := ⟨.kernel, .scripted 0, Generator.fresh⟩
    let occasions := List.replicate (2 ^ 76 - 4095) atFirstMilli
    (∀ time ∈ mint.kernelTimes occasions, time.IsNormal) ∧
      (mint.kernelTimes occasions).Pairwise Timespec.NotAfter ∧
      (mint.afterAll occasions).generator.lastMs.toNat < 2 ^ 63 ∧
      (mint.afterAll occasions).stats.driftMs.toInt = -1 := by
  intro mint occasions
  have htimes : mint.kernelTimes occasions = List.replicate (2 ^ 76 - 4095) ⟨0, 1000000⟩ :=
    kernelTimes_atFirstMilli Generator.fresh _
  obtain ⟨met, hlength, hfrozen, word, hafter⟩ := generator_atFirstMilli (2 ^ 76 - 4096)
  have hover := Generator.overruns_commit_frozen hfrozen (by rw [hlength]; decide) word
  have hgenerator : (mint.afterAll occasions).generator =
      ((Generator.fresh.afterAll met).commit 1 word).2 := hafter
  refine ⟨?_, ?_, ?_, ?_⟩
  · intro time htime
    rw [htimes] at htime
    rw [List.eq_of_mem_replicate htime]
    decide
  · rw [htimes, List.pairwise_replicate]
    exact Or.inr (by decide)
  · rw [hgenerator, hover.2]
    decide
  · rw [stats, hgenerator, Generator.commit_stats_driftMs, hover.2]
    decide

end Mint

end TokenMint
