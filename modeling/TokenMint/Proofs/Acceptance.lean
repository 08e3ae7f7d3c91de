import TokenMint.Proofs.Runs
import TokenMint.Proofs.Validation

/-!
# Mints and validators

Whether a validator takes a token right after it was minted depends on how far
the generator runs ahead of the clock, and on nothing else.
-/

namespace TokenMint

namespace Token

/-- Whatever a validator holds against the token is a matter of time, and it
compares the clock with this timestamp. -/
structure JudgedBy (token : Token) (timestamp : Nat) : Prop where
  not_nil : token.isNil = false
  well_formed : ∀ (validator : Validator) (host : Host) (verdict : Verdict),
    (validator.validate token host).1 = .ok verdict ∨
        (validator.validateBuffer (some token.toBytes) 16 host).1 = .ok verdict →
      verdict ≠ .malformed ∧ verdict ≠ .wrongVersion ∧ verdict ≠ .wrongVariant
  timely : ∀ (validator : Validator) (host later : Host) (now : UInt64),
    validator.clock.now host = (.ok now, later) →
      (validator.validate token host).1 =
          .ok (if timestamp ≤ now.toNat + validator.tolerance.toNat then .valid
            else .futureTimestamp) ∧
        (validator.validateBuffer (some token.toBytes) 16 host).1 =
          .ok (if timestamp ≤ now.toNat + validator.tolerance.toNat then .valid
            else .futureTimestamp)

theorem isNil_of_marked {token : Token} (hversion : token.version = standardVersion) :
    token.isNil = false := by
  rw [Bool.eq_false_iff]
  intro hnil
  simp only [isNil, Word128.isZero, Bool.and_eq_true, beq_iff_eq] at hnil
  have hzero : token.value.toNat = 0 := by
    rw [Word128.toNat, hnil.1, hnil.2]
    rfl
  have hnumber := token.toNat_version
  rw [hversion, hzero] at hnumber
  exact absurd hnumber (by decide)

theorem judgedBy_of_marked {token : Token} (hversion : token.version = standardVersion)
    (hvariant : token.variant = standardVariant) : token.JudgedBy token.timestamp.toNat := by
  obtain ⟨hmarked, hverdict⟩ := verdict_of_marked hversion hvariant
  have hbytes : ∀ validator : Validator,
      validator.validateBuffer (some token.toBytes) 16 = validator.validate token :=
    fun _ => Validator.validateBuffer_of_ok (ofBuffer_toBytes token)
  refine ⟨isNil_of_marked hversion, ?_, ?_⟩
  · intro validator host verdict hvalidate
    rw [hbytes, or_self] at hvalidate
    rcases Clock.now_answers validator.clock host with ⟨now, later, hnow⟩ | ⟨fault, later, hnow⟩
    · rw [Validator.validate_of_reading hnow, hverdict, Except.ok.injEq] at hvalidate
      rw [← hvalidate]
      split
      · decide
      · decide
    · rw [Validator.validate_of_stop (Validator.examine_of_stop hmarked hnow)] at hvalidate
      contradiction
  · intro validator host later now hnow
    rw [hbytes, and_self, Validator.validate_of_reading hnow, hverdict]
    by_cases hlate : now.toNat + validator.tolerance.toNat < token.timestamp.toNat
    · rw [if_pos hlate, if_neg (Nat.not_le.mpr hlate)]
    · rw [if_neg hlate, if_pos (Nat.not_lt.mp hlate)]

theorem JudgedBy.valid_iff {token : Token} {timestamp : Nat} (hjudged : token.JudgedBy timestamp)
    {validator : Validator} {host later : Host} {now : UInt64}
    (hnow : validator.clock.now host = (.ok now, later)) :
    (validator.validate token host).1 = .ok .valid ↔
      timestamp ≤ now.toNat + validator.tolerance.toNat := by
  rw [(hjudged.timely validator host later now hnow).1]
  split
  case isTrue hle => simp [hle]
  case isFalse hgt => simp [hgt]

theorem pack_judgedBy {timestamp : UInt64} (hfits : timestamp.toNat < 2 ^ 48)
    (counter random : UInt64) : (pack timestamp counter random).JudgedBy timestamp.toNat := by
  have hjudged := judgedBy_of_marked (version_pack timestamp counter random)
    (variant_pack timestamp counter random)
  rw [toNat_timestamp_pack, Nat.mod_eq_of_lt hfits] at hjudged
  exact hjudged

end Token

namespace Generator

section Lead

variable (generator : Generator) (now word : UInt64)

/-- A generator is never behind the clock, unless its timestamp runs over. -/
theorem le_lastMs_commit :
    now ≤ (generator.commit now word).2.lastMs ∨
      Overruns generator (generator.commit now word).2 := by
  obtain ⟨-, ⟨-, hlast, -⟩ | ⟨⟨-, hbehind⟩, -, hlast, -⟩ | ⟨⟨-, hbehind⟩, -, hlast, -⟩⟩ :=
    commit_cases generator now word
  · exact Or.inl (UInt64.le_of_eq hlast.symm)
  · rw [hlast]
    exact Or.inl hbehind
  · by_cases hgreatest : generator.lastMs = 0xffffffffffffffff
    · refine Or.inr ⟨hgreatest, ?_⟩
      rw [hlast, hgreatest]
      decide
    · have hne := mt UInt64.toNat_inj.mp hgreatest
      have hlt := generator.lastMs.toNat_lt
      have hle := UInt64.le_iff_toNat_le.mp hbehind
      refine Or.inl (UInt64.le_iff_toNat_le.mpr ?_)
      rw [hlast, UInt64.toNat_add]
      change now.toNat ≤ (generator.lastMs.toNat + 1) % 2 ^ 64
      change generator.lastMs.toNat ≠ 2 ^ 64 - 1 at hne
      omega

theorem commit_judgedBy (hfits : (generator.commit now word).2.lastMs.toNat < 2 ^ 48) :
    (generator.commit now word).1.token.JudgedBy (generator.commit now word).2.lastMs.toNat :=
  Token.pack_judgedBy hfits _ _

end Lead

/-- The drift is the lead of the timestamp over the clock.  A timestamp that has
run over to zero is behind every clock, and its drift is not above zero as long
as the clock is in the lower half of its range. -/
theorem drift_le_iff {last now tolerance : UInt64} (hlast : last.toNat < 2 ^ 48)
    (hlead : now ≤ last ∨ last = 0 ∧ now.toNat ≤ 2 ^ 63) :
    (last - now).toInt64.toInt ≤ tolerance.toNat ↔
      last.toNat ≤ now.toNat + tolerance.toNat := by
  have hint : (last - now).toInt64.toInt =
      if 2 * (last - now).toNat < 2 ^ 64 then ((last - now).toNat : Int)
      else (last - now).toNat - 2 ^ 64 := BitVec.toInt_eq_toNat_cond _
  rcases hlead with hle | ⟨rfl, hlow⟩
  · have hnow := UInt64.le_iff_toNat_le.mp hle
    rw [UInt64.toNat_sub_of_le _ _ hle] at hint
    rw [hint, if_pos (by omega)]
    omega
  -- The difference is the clock's time taken negative, which 64 bits hold up to 2^63.
  · rw [UInt64.toNat_sub, UInt64.toNat_zero] at hint
    rw [hint, UInt64.toNat_zero]
    split
    · omega
    · omega

end Generator

namespace Mint

/-- A successful call hands over a token that is judged by the timestamp at which
its generator stands. -/
theorem turn_judgedBy {mint : Mint} {occasion : Occasion} {bytes : Bytes} {now : UInt64}
    (hmeets : mint.Meets occasion.host bytes now)
    (hanswer : (mint.turn occasion).outcome = .ok Status.ok)
    (hfits : (mint.turn occasion).after.generator.lastMs.toNat < 2 ^ 48) :
    ∃ token, (mint.turn occasion).token? = some token ∧
      token.JudgedBy (mint.turn occasion).after.generator.lastMs.toNat := by
  obtain ⟨-, hafter, -⟩ := turn_of_meets hmeets
  rw [hafter] at hfits
  refine ⟨_, token?_of_meets hmeets hanswer, ?_⟩
  rw [hafter]
  exact Generator.commit_judgedBy _ _ _ hfits

/-- The drift after a call that does not run over into the lower half of the
clock's range compares with a tolerance as the timestamp does with the clock. -/
theorem drift_turn_le_iff {mint : Mint} {occasion : Occasion} {bytes : Bytes} {now : UInt64}
    (hmeets : mint.Meets occasion.host bytes now)
    (hfits : (mint.turn occasion).after.generator.lastMs.toNat < 2 ^ 48)
    (hwithin : (mint.turn occasion).Overruns → now.toNat ≤ 2 ^ 63) (tolerance : UInt64) :
    (mint.turn occasion).after.stats.driftMs.toInt ≤ tolerance.toNat ↔
      (mint.turn occasion).after.generator.lastMs.toNat ≤ now.toNat + tolerance.toNat := by
  obtain ⟨hbefore, hafter, -⟩ := turn_of_meets hmeets
  rw [Turn.Overruns, hbefore, hafter] at hwithin
  rw [hafter] at hfits
  rw [hafter, stats, Generator.commit_stats_driftMs]
  apply Generator.drift_le_iff hfits
  rcases mint.generator.le_lastMs_commit now (BigEndian.decode64 bytes) with hle | hover
  · exact Or.inl hle
  · exact Or.inr ⟨hover.2, hwithin hover⟩

theorem tokens_frozen {mint : Mint} {occasions : List Occasion} {met : List (Bytes × UInt64)}
    {now : UInt64} (hfresh : mint.generator = Generator.fresh)
    (hmints : mint.Mints occasions met) (hfrozen : ∀ drawn ∈ met, drawn.2 = now) {n : Nat}
    (hn : n < met.length) (hfits : now.toNat + n / 4096 < 2 ^ 48) :
    ∃ token, (mint.tokens occasions)[n]? = some token ∧
      token.JudgedBy (now.toNat + n / 4096) := by
  have htimes : ∀ drawn ∈ met.map fun met => (met.2, BigEndian.decode64 met.1),
      drawn.1 = now := List.forall_mem_map.mpr hfrozen
  obtain ⟨word, htoken⟩ := Generator.getElem?_mintAll_frozen htimes
    (by rw [List.length_map]; exact hn) (by omega)
  refine ⟨Token.pack (now.toNat + n / 4096).toUInt64 (n % 4096).toUInt64 word, ?_, ?_⟩
  · rw [hmints.tokens_eq, hfresh, List.getElem?_map]
    exact htoken
  · have hnumber : (now.toNat + n / 4096).toUInt64.toNat = now.toNat + n / 4096 :=
      Nat.mod_eq_of_lt (by omega)
    have hjudged := Token.pack_judgedBy (by rw [hnumber]; exact hfits) (n % 4096).toUInt64 word
    rw [hnumber] at hjudged
    exact hjudged

/-- Validators and mints agree.  A token is judged by the timestamp at which its
generator stands after the call, if that fits its field.  Where the validator
reads the same time as the mint, the drift decides, unless the timestamp has run
over under a clock in the upper half of its range; and under a frozen clock,
before anything can run over, the number of tokens before decides. -/
theorem validators_agree_with_mints :
    (∀ (mint : Mint) (occasion : Occasion) (bytes : Bytes) (now : UInt64),
      mint.Meets occasion.host bytes now →
        (mint.turn occasion).outcome = .ok Status.ok →
          (mint.turn occasion).after.generator.lastMs.toNat < 2 ^ 48 →
      ∃ token, (mint.turn occasion).token? = some token ∧
        token.JudgedBy (mint.turn occasion).after.generator.lastMs.toNat ∧
        (((mint.turn occasion).Overruns → now.toNat ≤ 2 ^ 63) →
          ∀ (validator : Validator) (host later : Host),
            validator.clock.now host = (.ok now, later) →
              ((validator.validate token host).1 = .ok .valid ↔
                (mint.turn occasion).after.stats.driftMs.toInt ≤
                  validator.tolerance.toNat))) ∧
    ∀ (mint : Mint) (occasions : List Occasion) (met : List (Bytes × UInt64)) (now : UInt64),
      mint.generator = Generator.fresh → mint.Mints occasions met →
        (∀ drawn ∈ met, drawn.2 = now) →
      ∀ n < met.length, now.toNat + n / 4096 < 2 ^ 48 →
        ∃ token, (mint.tokens occasions)[n]? = some token ∧
          ∀ (validator : Validator) (host later : Host),
            validator.clock.now host = (.ok now, later) →
              ((validator.validate token host).1 = .ok .valid ↔
                n / 4096 ≤ validator.tolerance.toNat) := by
  constructor
  · intro mint occasion bytes now hmeets hanswer hfits
    obtain ⟨token, htoken, hjudged⟩ := turn_judgedBy hmeets hanswer hfits
    refine ⟨token, htoken, hjudged, ?_⟩
    intro hwithin validator host later hnow
    rw [hjudged.valid_iff hnow, drift_turn_le_iff hmeets hfits hwithin]
  · intro mint occasions met now hfresh hmints hfrozen n hn hfits
    obtain ⟨token, htoken, hjudged⟩ := tokens_frozen hfresh hmints hfrozen hn hfits
    refine ⟨token, htoken, ?_⟩
    intro validator host later hnow
    rw [hjudged.valid_iff hnow, Nat.add_le_add_iff_left]

/-- A call that draws zero under a clock that stands at this time. -/
def Occasion.frozen (now : UInt64) : Occasion :=
  .scripted Security.secure (.ok 0) (.ok now)

theorem meets_frozen (generator : Generator) (now : UInt64) :
    { scripted with generator }.Meets (Occasion.frozen now).host (BigEndian.encode64 0) now :=
  ⟨UInt8.le_refl _, _, _, rfl, rfl⟩

theorem answers_frozen (generator : Generator) (now : UInt64) :
    ({ scripted with generator }.turn (.frozen now)).outcome = .ok Status.ok :=
  answers_of_fresh_log (UInt8.le_refl _) rfl rfl rfl

theorem mints_frozen (generator : Generator) (now : UInt64) (n : Nat) :
    { scripted with generator }.Mints (List.replicate n (.frozen now))
      (List.replicate n (BigEndian.encode64 0, now)) := by
  induction n generalizing generator with
  | zero => exact .nil
  | succ n ih =>
      rw [List.replicate_succ, List.replicate_succ]
      refine .mint (meets_frozen generator now) (answers_frozen generator now) ?_
      rw [(turn_of_meets (meets_frozen generator now)).2.1]
      exact ih _

/-- A clock that goes back by 100 ms makes a drift that a validator may tolerate;
a clock that stands makes one with its 4097th token. -/
theorem drift_within_tolerance :
    (let mint := scripted.afterAll [.frozen 1000]
      let turn := mint.turn (.frozen 900)
      mint.Meets (Occasion.frozen 900).host (BigEndian.encode64 0) 900 ∧
        turn.outcome = .ok Status.ok ∧ turn.after.generator.lastMs = 1000 ∧
        ∃ token, turn.token? = some token ∧ token.JudgedBy 1000 ∧
          ((Validator.mk (.device 0) 100).validate token (Host.showing 900)).1 = .ok .valid ∧
          ((Validator.mk (.device 0) 99).validate token (Host.showing 900)).1 ≠ .ok .valid) ∧
      ∃ token, (scripted.tokens (List.replicate 4097 (.frozen 1000)))[4096]? = some token ∧
        ((Validator.mk (.device 0) 1).validate token (Host.showing 1000)).1 = .ok .valid ∧
        ((Validator.mk (.device 0) 0).validate token (Host.showing 1000)).1 ≠ .ok .valid := by
  obtain ⟨hturn, hfrozen⟩ := validators_agree_with_mints
  constructor
  · have hmeets := meets_frozen (scripted.afterAll [.frozen 1000]).generator 900
    have hanswer := answers_frozen (scripted.afterAll [.frozen 1000]).generator 900
    obtain ⟨token, htoken, hjudged, haccepted⟩ := hturn _ _ _ _ hmeets hanswer (by decide)
    have haccepted := haccepted (by decide)
    refine ⟨hmeets, hanswer, by decide, token, htoken, hjudged, ?_, ?_⟩
    · rw [haccepted _ _ _ rfl]
      decide
    · rw [ne_eq, haccepted _ _ _ rfl]
      decide
  · have hmints : scripted.Mints _ _ := mints_frozen Generator.fresh 1000 4097
    have htimes : ∀ drawn ∈ List.replicate 4097 (BigEndian.encode64 0, (1000 : UInt64)),
        drawn.2 = 1000 := by
      intro drawn hdrawn
      rw [List.eq_of_mem_replicate hdrawn]
    obtain ⟨token, htoken, haccepted⟩ := hfrozen _ _ _ _ rfl hmints htimes 4096
      (by rw [List.length_replicate]; decide) (by decide)
    refine ⟨token, htoken, ?_, ?_⟩
    · rw [haccepted _ _ _ rfl]
      decide
    · rw [ne_eq, haccepted _ _ _ rfl]
      decide

/-- The last call of a run under a frozen clock. -/
theorem last_frozen (now : UInt64) (n : Nat) :
    ∃ met word, met.length = n ∧ (∀ drawn ∈ met, drawn.1 = now) ∧
      (scripted.tokens (List.replicate (n + 1) (.frozen now)))[n]? =
        some ((Generator.fresh.afterAll met).commit now word).1.token ∧
      (scripted.afterAll (List.replicate (n + 1) (.frozen now))).generator =
        ((Generator.fresh.afterAll met).commit now word).2 := by
  let word := BigEndian.decode64 (BigEndian.encode64 0)
  let met := List.replicate n (now, word)
  have hlength : met.length = n := List.length_replicate
  have hmints : scripted.Mints _ _ := mints_frozen Generator.fresh now (n + 1)
  have hmet : (List.replicate (n + 1) (BigEndian.encode64 0, now)).map
      (fun met => (met.2, BigEndian.decode64 met.1)) = met ++ [(now, word)] := by
    rw [List.map_replicate, List.replicate_succ']
  refine ⟨met, word, hlength, ?_, ?_, ?_⟩
  · intro drawn hdrawn
    rw [List.eq_of_mem_replicate hdrawn]
  · rw [hmints.tokens_eq, hmet, List.getElem?_map, Generator.getElem?_mintAll,
      List.getElem?_append_right (Nat.le_of_eq hlength), List.take_left' hlength, hlength,
      Nat.sub_self]
    rfl
  · rw [hmints.afterAll_eq, hmet, Generator.afterAll_concat]
    rfl

/-- Where the clock stands at its greatest value, the timestamp runs over to zero
after 4096 tokens.  Every validator takes the token after that, and the drift is
one millisecond. -/
theorem overrun_accepted_despite_drift :
    let latest : UInt64 := 0xffffffffffffffff
    let occasions := List.replicate (4096 + 1) (Occasion.frozen latest)
    let validator : Validator := ⟨.device 0, 0⟩
    scripted.Mints occasions (List.replicate (4096 + 1) (BigEndian.encode64 0, latest)) ∧
      (scripted.afterAll occasions).generator.lastMs.toNat < 2 ^ 48 ∧
      validator.clock.now (Host.showing latest) = (.ok latest, Host.showing latest) ∧
      ∃ token, (scripted.tokens occasions)[4096]? = some token ∧
        ¬ ((validator.validate token (Host.showing latest)).1 = .ok .valid ↔
          (scripted.afterAll occasions).stats.driftMs.toInt ≤ validator.tolerance.toNat) ∧
        ¬ ((validator.validate token (Host.showing latest)).1 = .ok .valid ↔
          4096 / 4096 ≤ validator.tolerance.toNat) := by
  intro latest occasions validator
  obtain ⟨met, word, hlength, htimes, htoken, hafter⟩ := last_frozen latest 4096
  have hover := Generator.overruns_commit_frozen htimes (by rw [hlength]; decide) word
  have hdrift : (scripted.afterAll occasions).stats.driftMs = 1 := by
    rw [stats, hafter, Generator.commit_stats_driftMs, hover.2]
    decide
  have hjudged := Generator.commit_judgedBy (Generator.fresh.afterAll met) latest word
    (by rw [hover.2]; decide)
  have hvalid : (validator.validate ((Generator.fresh.afterAll met).commit latest word).1.token
      (Host.showing latest)).1 = .ok .valid := by
    rw [hjudged.valid_iff rfl, hover.2]
    exact Nat.zero_le _
  refine ⟨mints_frozen Generator.fresh latest (4096 + 1), ?_, rfl, _, htoken, ?_, ?_⟩
  · rw [hafter, hover.2]
    decide
  · rw [hdrift, iff_true_left hvalid]
    decide
  · rw [iff_true_left hvalid]
    decide

end Mint

end TokenMint
