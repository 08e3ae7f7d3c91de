import TokenMint.Proofs.Calls
import TokenMint.Proofs.Validation

/-!
# Entry points of a validator

A token can be validated or checked, as a value or in a buffer.  The four ways
agree.  Each of them reads the clock once for a token whose markers are right,
and not at all for anything else.
-/

namespace TokenMint

namespace Clock

variable {α β : Type} {clock : Clock} {act : Hosted α} {count : Nat}

/-- The host after a clock has been read so often. -/
def afterReadings (clock : Clock) : Nat → Host → Host
  | 0, host => host
  | count + 1, host => clock.afterReadings count (clock.read host).2

/-- A computation reads a clock so often and does nothing else with the host.
Without a reading its answer is fixed.  With one the answer depends on the time,
and a fault of the clock is a fault of the computation. -/
inductive Reads {α : Type} (clock : Clock) : Hosted α → Nat → Prop where
  | never (answer : α) : Reads clock (pure answer) 0
  | once (answer : UInt64 → α) : Reads clock (do return answer (← clock.now)) 1

theorem Reads.count_le (hreads : clock.Reads act count) : count = 0 ∨ count = 1 := by
  cases hreads with
  | never => exact Or.inl rfl
  | once => exact Or.inr rfl

/-- What is made of the answer reads nothing. -/
theorem Reads.map (hreads : clock.Reads act count) (make : α → β) :
    clock.Reads (do return make (← act)) count := by
  cases hreads with
  | never answer =>
      rw [pure_bind]
      exact .never (make answer)
  | once answer =>
      simp only [bind_assoc, pure_bind]
      exact .once fun now => make (answer now)

theorem now_of_read {host : Host} {now : UInt64} (hread : (clock.read host).1 = .ok now) :
    clock.now host = (.ok now, (clock.read host).2) := by
  rw [now_apply, hread]
  rfl

theorem now_of_fault {host : Host} {fault : Fault} (hread : (clock.read host).1 = .error fault) :
    clock.now host = (.error (.raised fault), (clock.read host).2) := by
  rw [now_apply, hread]
  rfl

theorem Reads.host_eq (hreads : clock.Reads act count) (host : Host) :
    (act host).2 = clock.afterReadings count host := by
  cases hreads with
  | never answer => rfl
  | once answer =>
      cases hread : (clock.read host).1 with
      | ok now => rw [Effect.bind_of_ok (now_of_read hread)]; rfl
      | error fault => rw [Effect.bind_of_error (now_of_fault hread)]; rfl

/-- A fault of the clock reaches the caller of a computation that reads it, and
no one else. -/
theorem Reads.fault_iff (hreads : clock.Reads act count) {host : Host} {fault : Fault}
    (hread : (clock.read host).1 = .error fault) :
    (act host).1 = .error (.raised fault) ↔ count = 1 := by
  cases hreads with
  | never answer => simp
  | once answer => rw [Effect.bind_of_error (now_of_fault hread)]; simp

/-- Every clock fails on some host: one without devices, where the kernel's clock
does not answer. -/
theorem exists_fault (clock : Clock) : ∃ host fault, (clock.read host).1 = .error fault := by
  refine ⟨Host.fresh (Log.fresh ⟨0, 0, 0⟩) ⟨[], [], [], [.error Errno.ioFailure], []⟩
    (Environment.ofIdentity default), ?_⟩
  cases clock with
  | empty => exact ⟨_, rfl⟩
  | kernel => exact ⟨_, rfl⟩
  | device index => exact ⟨_, rfl⟩

/-- How often a computation reads a clock is no matter of choice. -/
theorem Reads.count_eq {other : Nat} (hreads : clock.Reads act count)
    (hother : clock.Reads act other) : count = other := by
  obtain ⟨host, fault, hread⟩ := clock.exists_fault
  have hiff : count = 1 ↔ other = 1 :=
    (hreads.fault_iff hread).symm.trans (hother.fault_iff hread)
  rcases hreads.count_le with rfl | rfl
  · rcases hother.count_le with rfl | rfl
    · rfl
    · simp at hiff
  · exact (hiff.mp rfl).symm

/-- Each reading takes one answer off a series, as long as another one is left. -/
theorem clocks_afterReadings {index : Nat} {host : Host} {answers : List (Except Fault UInt64)}
    (hseries : host.clocks[index]? = some (.series answers)) (hleft : count < answers.length) :
    ((Clock.device index).afterReadings count host).clocks[index]? =
      some (.series (answers.drop count)) := by
  induction count generalizing host answers with
  | zero => exact hseries
  | succ count ih =>
      match answers, hleft with
      | first :: second :: rest, hleft =>
          obtain ⟨hindex, hdevice⟩ := List.getElem?_eq_some_iff.mp hseries
          rw [afterReadings, List.drop_succ_cons]
          apply ih
          · simp [Clock.read, hindex, hdevice, ClockDevice.read]
          · exact Nat.lt_of_succ_lt_succ hleft

end Clock

namespace Token

/-- Whether the markers of a token are those that a mint gives it. -/
def IsMarked (token : Token) : Prop :=
  token.version.toNat = 8 ∧ token.variant.toNat = 2

instance (token : Token) : Decidable token.IsMarked :=
  inferInstanceAs (Decidable (_ ∧ _))

/-- How often a clock is read for a token. -/
def readings (token : Token) : Nat :=
  if token.IsMarked then 1 else 0

/-- How often a clock is read for a buffer. -/
def bufferReadings (buffer : Option Bytes) (length : UInt64) : Nat :=
  match ofBuffer buffer length with
  | .ok token => token.readings
  | .error _ => 0

theorem markerFlaw_eq_none_iff {token : Token} : token.markerFlaw = none ↔ token.IsMarked := by
  have hversion : token.version = standardVersion ↔ token.version.toNat = 8 :=
    UInt64.toNat_inj.symm
  have hvariant : token.variant = standardVariant ↔ token.variant.toNat = 2 :=
    UInt64.toNat_inj.symm
  simp only [markerFlaw, IsMarked, ← hversion, ← hvariant]
  split
  · simp_all
  · split
    · simp_all
    · simp_all

end Token

namespace Finding

/-- Whoever finds a flaw can say what it is. -/
theorem explanation_ne_nil {finding : Finding} (hflaw : finding.verdict ≠ .valid) :
    finding.explanation ≠ [] := by
  cases finding with
  | valid => exact absurd rfl hflaw
  | malformed error => simp [explanation, Piece.render, ascii]
  | wrongVersion version => simp [explanation, Piece.render, ascii]
  | wrongVariant variant => simp [explanation, Piece.render, ascii]
  | futureTimestamp timestamp ahead tolerance => simp [explanation, Piece.render, ascii]

theorem status_of_flaw {finding : Finding} (hflaw : finding.verdict ≠ .valid) :
    finding.status = Status.invalidArgument finding.explanation := by
  cases finding with
  | valid => exact absurd rfl hflaw
  | _ => rfl

theorem status_eq_ok_iff {finding : Finding} :
    finding.status = Status.ok ↔ finding.verdict = .valid := by
  constructor
  · intro hok
    by_contra hflaw
    rw [status_of_flaw hflaw] at hok
    contradiction
  · intro hvalid
    cases finding with
    | valid => rfl
    | _ => contradiction

end Finding

namespace Validator

/-- What a validation and a check of the same thing have to do with each other. -/
structure Agree (verdict : Except Stop Verdict) (status : Except Stop Status) : Prop where
  ok_iff : status = .ok Status.ok ↔ verdict = .ok .valid
  flaw : ∀ flaw, verdict = .ok flaw → flaw ≠ .valid →
    ∃ message, message ≠ [] ∧ status = .ok (Status.invalidArgument message)
  stop_iff : ∀ stop, status = .error stop ↔ verdict = .error stop

theorem agree_of_finding (finding : Finding) :
    Agree (.ok finding.verdict) (.ok finding.status) := by
  refine ⟨by simp [Finding.status_eq_ok_iff], ?_, by simp⟩
  rintro flaw ⟨⟩ hflaw
  exact ⟨finding.explanation, Finding.explanation_ne_nil hflaw,
    congrArg Except.ok (Finding.status_of_flaw hflaw)⟩

theorem agree_of_stop (stop : Stop) : Agree (.error stop) (.error stop) :=
  ⟨by simp, by simp, by simp⟩

variable (validator : Validator) (token : Token) (buffer : Option Bytes) (length : UInt64)

theorem validate_agrees_with_check (host : Host) :
    Agree (validator.validate token host).1 (validator.check token host).1 := by
  rcases hexamine : validator.examine token host with ⟨outcome, later⟩
  cases outcome with
  | ok finding =>
      have hcheck : validator.check token host = (.ok finding.status, later) :=
        Effect.bind_of_ok hexamine
      rw [validate_of_finding hexamine, hcheck]
      exact agree_of_finding finding
  | error stop =>
      have hcheck : validator.check token host = (.error stop, later) :=
        Effect.bind_of_error hexamine
      rw [validate_of_stop hexamine, hcheck]
      exact agree_of_stop stop

theorem examine_reads : validator.clock.Reads (validator.examine token) token.readings := by
  by_cases hmarked : token.IsMarked
  · rw [Token.readings, if_pos hmarked, examine, Token.examine,
      Token.markerFlaw_eq_none_iff.mpr hmarked]
    exact .once fun now => token.timeliness validator.tolerance now
  · obtain ⟨flaw, hflaw⟩ :=
      Option.ne_none_iff_exists'.mp (mt Token.markerFlaw_eq_none_iff.mp hmarked)
    rw [Token.readings, if_neg hmarked, examine, Token.examine, hflaw]
    exact .never flaw

theorem examineBuffer_reads :
    validator.clock.Reads (validator.examineBuffer buffer length)
      (Token.bufferReadings buffer length) := by
  rw [Token.bufferReadings, examineBuffer, Token.examineBuffer]
  cases Token.ofBuffer buffer length with
  | ok token => exact validator.examine_reads token
  | error error => exact .never (Finding.malformed error)

/-- The four entry points agree.  A buffer is judged as the token in it, and as
malformed if there is none.  The clock is read once for a token whose markers are
right, and not at all for anything else. -/
theorem entry_points_agree (validator : Validator) :
    (∀ token host, Agree (validator.validate token host).1 (validator.check token host).1) ∧
    (∀ buffer length token, Token.ofBuffer buffer length = .ok token →
      validator.validateBuffer buffer length = validator.validate token ∧
        validator.checkBuffer buffer length = validator.check token) ∧
    (∀ buffer length error, Token.ofBuffer buffer length = .error error →
      validator.validateBuffer buffer length = pure .malformed ∧
        ∃ message, message ≠ [] ∧
          validator.checkBuffer buffer length = pure (Status.invalidArgument message)) ∧
    (∀ token,
      validator.clock.Reads (validator.validate token) token.readings ∧
        validator.clock.Reads (validator.check token) token.readings) ∧
    ∀ buffer length,
      validator.clock.Reads (validator.validateBuffer buffer length)
          (Token.bufferReadings buffer length) ∧
        validator.clock.Reads (validator.checkBuffer buffer length)
          (Token.bufferReadings buffer length) := by
  refine ⟨validator.validate_agrees_with_check, ?_, ?_, ?_, ?_⟩
  · intro buffer length token hbuffer
    refine ⟨validateBuffer_of_ok hbuffer, ?_⟩
    rw [checkBuffer, examineBuffer, Token.examineBuffer, hbuffer]
    rfl
  · intro buffer length error hbuffer
    have hflaw : (Finding.malformed error).verdict ≠ .valid := by simp [Finding.verdict]
    refine ⟨funext fun host => validateBuffer_of_error hbuffer,
      (Finding.malformed error).explanation, Finding.explanation_ne_nil hflaw, ?_⟩
    rw [checkBuffer, examineBuffer, Token.examineBuffer, hbuffer]
    rfl
  · intro token
    have hreads := validator.examine_reads token
    exact ⟨hreads.map Finding.verdict, hreads.map Finding.status⟩
  · intro buffer length
    have hreads := validator.examineBuffer_reads buffer length
    exact ⟨hreads.map Finding.verdict, hreads.map Finding.status⟩

/-- A clock that fails at first and then shows 1000 ms is seen to fail by a check
of a minted token, and keeps its failure over a check of sixteen zeros. -/
theorem failing_clock_read_once :
    let validator : Validator := ⟨.device 0, 5⟩
    let answers : List (Except Fault UInt64) := [.error (.foreign 7), .ok 1000]
    let host : Host := { Host.showing 0 with clocks := [.series answers] }
    let minted := validator.check (Token.pack 1000 0 0) host
    let zeros := validator.checkBuffer (some Token.nil.toBytes) 16 host
    minted.1 = .error (.raised (.foreign 7)) ∧
      minted.2.clocks[0]? = some (.series [.ok 1000]) ∧
      (∃ message, message ≠ [] ∧ zeros.1 = .ok (Status.invalidArgument message)) ∧
      zeros.2.clocks[0]? = some (.series answers) := by
  intro validator answers host minted zeros
  obtain ⟨hagree, hbuffer, -, hreads, hbufferReads⟩ := entry_points_agree validator
  have hminted := (hreads (Token.pack 1000 0 0)).2
  have hzeros := (hbufferReads (some Token.nil.toBytes) 16).2
  have hcheck : validator.checkBuffer (some Token.nil.toBytes) 16 = validator.check Token.nil :=
    (hbuffer (some Token.nil.toBytes) 16 Token.nil rfl).2
  have hseries : host.clocks[0]? = some (.series answers) := rfl
  refine ⟨(hminted.fault_iff rfl).mpr (by decide), ?_, ?_, ?_⟩
  · exact (congrArg (·.clocks[0]?) (hminted.host_eq host)).trans
      (Clock.clocks_afterReadings hseries (by decide))
  · simp only [zeros, hcheck]
    exact (hagree Token.nil host).flaw .wrongVersion rfl (by decide)
  · exact (congrArg (·.clocks[0]?) (hzeros.host_eq host)).trans
      (Clock.clocks_afterReadings hseries (by decide))

end Validator

end TokenMint
