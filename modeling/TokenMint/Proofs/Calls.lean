import TokenMint.Generator.Mint
import TokenMint.Proofs.Effects

/-!
# Calls of a mint

A call draws eight bytes and then reads the clock, unless it fails before.
What it does to its destination and to its generator is settled by these two
answers, whatever else the host holds.
-/

namespace TokenMint

open Effect

theorem Security.isSecure_eq_false_iff (rating : Security) :
    rating.isSecure = false ↔ rating.level < Security.secure.level := by
  simp [isSecure]

namespace RandomSource

/-- A source always answers a request that comes with a buffer, and it keeps the
length of the buffer. -/
theorem read_answers (source : RandomSource) (buffer : Bytes) (length : Nat) (host : Host) :
    ∃ status filled later,
      source.read (some buffer) length host = (.ok (status, filled), later) ∧
        filled.length = buffer.length := by
  cases source with
  | system =>
      by_cases hlength : length = 0
      · refine ⟨Status.ok, buffer, host, ?_, rfl⟩
        rw [read, if_pos hlength]
        rfl
      · let outcome := (SystemRandom.read length host.kernel).1
        let later := { host with kernel := (SystemRandom.read length host.kernel).2 }
        refine ⟨outcome.status, buffer.overwrite outcome.delivered, later, ?_,
          Bytes.length_overwrite buffer outcome.delivered⟩
        rw [read, if_neg hlength]
        rfl
  | scripted index =>
      exact ⟨_, _, _, rfl, Bytes.length_overwrite buffer
        (readScripted index length host).1.delivered⟩

theorem word_of_ok {source : RandomSource} {host later : Host} {bytes : Bytes}
    (hread : source.read (some (List.replicate 8 0)) 8 host = (.ok (Status.ok, bytes), later)) :
    source.word host = (.ok (.ok (BigEndian.decode64 bytes)), later) := by
  rw [word, bind_of_ok hread]
  rfl

theorem word_of_failed {source : RandomSource} {host later : Host} {status : Status}
    {bytes : Bytes}
    (hread : source.read (some (List.replicate 8 0)) 8 host = (.ok (status, bytes), later))
    (hfailed : status ≠ Status.ok) : source.word host = (.ok (.error status), later) := by
  rw [word, bind_of_ok hread]
  cases status with
  | ok => exact absurd rfl hfailed
  | failed => rfl

end RandomSource

/-- A clock shows what it reads. -/
theorem Clock.now_apply (clock : Clock) (host : Host) :
    clock.now host = ((clock.read host).1.mapError Stop.raised, (clock.read host).2) := by
  rw [Clock.now, bind_of_ok (ofState_apply clock.read host), ofExcept_apply]

/-- A clock shows a time or raises a fault. -/
theorem Clock.now_answers (clock : Clock) (host : Host) :
    (∃ now later, clock.now host = (.ok now, later)) ∨
      ∃ fault later, clock.now host = (.error (.raised fault), later) := by
  rw [Clock.now_apply]
  cases hreading : (clock.read host).1 with
  | ok now =>
      exact Or.inl ⟨now, (clock.read host).2, rfl⟩
  | error fault =>
      exact Or.inr ⟨fault, (clock.read host).2, rfl⟩

namespace Mint

variable {mint : Mint} {host : Host}

@[simp]
theorem hosted_apply {α : Type} (act : Hosted α) (mint : Mint) (host : Host) :
    hosted act (mint, host) = ((act host).1, (mint, (act host).2)) :=
  rfl

@[simp]
theorem aside_apply {α : Type} (act : Minting α) (held : Option Token) (state : Mint × Host) :
    aside act (held, state) = ((act state).1, (held, (act state).2)) :=
  rfl

theorem hosted_eq {α : Type} {act : Hosted α} {outcome : Except Stop α} {later : Host}
    (hact : act host = (outcome, later)) : hosted act (mint, host) = (outcome, (mint, later)) := by
  rw [hosted_apply, hact]

theorem draw_of_secure (hsecure : (mint.source.security host).isSecure = true) :
    draw (mint, host) = hosted mint.source.word (mint, host) := by
  rw [draw, bind_of_ok (get_apply _)]
  simp only [hsecure, if_true]

theorem draw_of_weak (hweak : (mint.source.security host).isSecure = false) :
    draw (mint, host) =
      (.ok (.error (Generator.weakSource (mint.source.security host))), (mint, host)) := by
  rw [draw, bind_of_ok (get_apply _)]
  simp [hweak]

/-- A draw leaves the mint alone and yields a word or a status. -/
theorem draw_answers (mint : Mint) (host : Host) :
    ∃ answer later, draw (mint, host) = (.ok answer, (mint, later)) := by
  cases hsecure : (mint.source.security host).isSecure with
  | false => exact ⟨_, host, draw_of_weak hsecure⟩
  | true =>
      obtain ⟨status, bytes, later, hread, -⟩ :=
        mint.source.read_answers (List.replicate 8 0) 8 host
      by_cases hstatus : status = Status.ok
      · subst hstatus
        exact ⟨_, later, (draw_of_secure hsecure).trans
          (hosted_eq (RandomSource.word_of_ok hread))⟩
      · exact ⟨_, later, (draw_of_secure hsecure).trans
          (hosted_eq (RandomSource.word_of_failed hread hstatus))⟩

theorem commit_of_reading {now : UInt64} {later : Host} (word : UInt64)
    (hnow : mint.clock.now host = (.ok now, later)) :
    commit word (mint, host) =
      (.ok (mint.generator.commit now word).1,
        ({ mint with generator := (mint.generator.commit now word).2 }, later)) := by
  rw [commit, bind_of_ok (get_apply _)]
  exact bind_of_ok (hosted_eq hnow)

theorem commit_of_stop {stop : Stop} {later : Host} (word : UInt64)
    (hnow : mint.clock.now host = (.error stop, later)) :
    commit word (mint, host) = (.error stop, (mint, later)) := by
  rw [commit, bind_of_ok (get_apply _)]
  exact bind_of_error (hosted_eq hnow)

/-- The warning leaves the mint as it is.  It may stop, but only where there is
something to warn about. -/
theorem warn_keeps (minted : Minted) (mint : Mint) (host : Host) :
    ∃ outcome later, warn minted (mint, host) = (outcome, (mint, later)) ∧
      (minted.forced = false → outcome = .ok ()) := by
  cases hforced : minted.forced with
  | true =>
      have hwarn : ∃ outcome later, warn minted (mint, host) = (outcome, (mint, later)) := by
        rw [warn, if_pos hforced]
        exact ⟨_, _, hosted_apply _ mint host⟩
      obtain ⟨outcome, later, hwarn⟩ := hwarn
      exact ⟨outcome, later, hwarn, fun hcalm => absurd hcalm (by decide)⟩
  | false =>
      refine ⟨.ok (), host, ?_, fun _ => rfl⟩
      rw [warn, hforced]
      rfl

/-- A fresh log takes the warning without a stop. -/
theorem warn_of_fresh_log (minted : Minted) (mint : Mint) {host : Host} {stamp : Log.Stamp}
    (hlog : host.log = Log.fresh stamp) :
    ∃ later, warn minted (mint, host) = (.ok (), (mint, later)) := by
  rw [warn]
  split
  · rw [hosted_apply, Host.logging, Effect.onPart_apply, hlog]
    exact ⟨_, rfl⟩
  · exact ⟨host, rfl⟩

section Next

variable {drawn : Mint × Host}

theorem next_of_refusal {status : Status}
    (hdraw : draw (mint, host) = (.ok (.error status), drawn)) :
    next (mint, host) = (.ok (.error status), drawn) := by
  rw [next, bind_of_ok hdraw]
  rfl

theorem next_of_stop {word : UInt64} {stop : Stop} {state : Mint × Host}
    (hdraw : draw (mint, host) = (.ok (.ok word), drawn))
    (hcommit : commit word drawn = (.error stop, state)) :
    next (mint, host) = (.error stop, state) := by
  rw [next, bind_of_ok hdraw]
  exact bind_of_error hcommit

theorem next_of_warned {word : UInt64} {minted : Minted} {committed last : Mint × Host}
    (hdraw : draw (mint, host) = (.ok (.ok word), drawn))
    (hcommit : commit word drawn = (.ok minted, committed))
    (hwarn : warn minted committed = (.ok (), last)) :
    next (mint, host) = (.ok (.ok minted.token), last) := by
  rw [next, bind_of_ok hdraw]
  exact (bind_of_ok hcommit).trans (bind_of_ok hwarn)

/-- Once a token is committed, only the warning about a forced tick can keep it
from the caller. -/
theorem next_of_commit {word : UInt64} {minted : Minted} {committed : Mint} {later : Host}
    (hdraw : draw (mint, host) = (.ok (.ok word), drawn))
    (hcommit : commit word drawn = (.ok minted, (committed, later))) :
    (∃ last, next (mint, host) = (.ok (.ok minted.token), (committed, last))) ∨
      minted.forced = true ∧ ∃ stop last, next (mint, host) = (.error stop, (committed, last)) := by
  obtain ⟨outcome, last, hwarn, hcalm⟩ := warn_keeps minted committed later
  have hsteps : next (mint, host) =
      (do warn minted; return .ok minted.token : Minting (Except Status Token))
        (committed, later) := by
    rw [next, bind_of_ok hdraw]
    exact bind_of_ok hcommit
  rw [hsteps]
  cases outcome with
  | ok => exact Or.inl ⟨last, bind_of_ok hwarn⟩
  | error stop =>
      have hforced : minted.forced = true := by
        cases hforced : minted.forced with
        | true => rfl
        | false => exact absurd (hcalm hforced) (by simp)
      exact Or.inr ⟨hforced, stop, last, bind_of_error hwarn⟩

end Next

section Generate

variable {state : Mint × Host} (held : Token)

/-- With a destination, a call is a call without one up to its last step. -/
theorem generate_eq :
    generate (some held, mint, host) =
      (do match ← aside next with
          | .error status => return status
          | .ok token =>
            modify fun (_, state) => (some token, state)
            return Status.ok : Filling Status) (some held, mint, host) := by
  rfl

theorem generate_of_refusal {status : Status}
    (hnext : next (mint, host) = (.ok (.error status), state)) :
    generate (some held, mint, host) = (.ok status, (some held, state)) := by
  have hside : aside next (some held, mint, host) = (.ok (.error status), (some held, state)) := by
    rw [aside_apply, hnext]
  rw [generate_eq]
  exact bind_of_ok hside

theorem generate_of_token {token : Token}
    (hnext : next (mint, host) = (.ok (.ok token), state)) :
    generate (some held, mint, host) = (.ok Status.ok, (some token, state)) := by
  have hside : aside next (some held, mint, host) = (.ok (.ok token), (some held, state)) := by
    rw [aside_apply, hnext]
  rw [generate_eq]
  exact bind_of_ok hside

theorem generate_of_stop {stop : Stop}
    (hnext : next (mint, host) = (.error stop, state)) :
    generate (some held, mint, host) = (.error stop, (some held, state)) := by
  have hside : aside next (some held, mint, host) = (.error stop, (some held, state)) := by
    rw [aside_apply, hnext]
  rw [generate_eq]
  exact bind_of_error hside

end Generate

end Mint

end TokenMint
