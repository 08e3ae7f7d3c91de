import TokenMint.Log.Logger
import TokenMint.Proofs.Effects

/-!
# Loggers from start to finish

A logger asks at its start whether anyone wants its entry.  Its message is written
at its end if someone does, and nothing happens otherwise.
-/

namespace TokenMint.Log

open Effect

/-- Only the fatal levels end the process. -/
theorem le_of_isFatal {debug : Bool} {level : Level} (hfatal : isFatal debug level = true) :
    Level.debugFatal ≤ level := by
  rw [isFatal, Bool.or_eq_true, Bool.and_eq_true] at hfatal
  rcases hfatal with hfatal | ⟨hdebugFatal, -⟩
  · exact Int.le_trans (by decide) (of_decide_eq_true hfatal)
  · exact of_decide_eq_true hdebugFatal

section Wants

variable {site : Site} {level : Level}

/-- The fatal levels are wanted without a question. -/
theorem wants_of_debugFatal (site : Site) (every : Nat) (hlevel : Level.debugFatal ≤ level)
    (log : Log) : wants site every level log = (.ok true, log) := by
  rw [wants, if_pos hlevel]
  rfl

/-- A place that logs every time asks the targets and does not count. -/
theorem wants_once (site : Site) (hlevel : ¬ Level.debugFatal ≤ level) (log : Log) :
    wants site 1 level log = askAny site level log.targets log := by
  rw [wants, if_neg hlevel, if_neg (Nat.lt_irrefl 1)]
  exact bind_of_ok (get_apply log)

end Wants

namespace Logger

variable {site : Site} {every : Nat} {level : Level} {log after : Log}

theorem start_of_unknown (hunknown : (!site.isKnown || every == 0) = true) :
    start site every level log = (.error .terminated, log) := by
  rw [start, if_pos hunknown]
  rfl

theorem start_of_wants {wanted : Bool} (hknown : (!site.isKnown || every == 0) = false)
    (hwants : wants site every level log = (.ok wanted, after)) :
    start site every level log =
      (.ok ⟨site, level, if wanted then some Message.blank else none⟩, after) := by
  rw [start, if_neg (by simp [hknown])]
  refine (bind_of_ok hwants).trans ?_
  cases wanted with
  | true => rfl
  | false => rfl

theorem start_of_stop {stop : Stop} (hknown : (!site.isKnown || every == 0) = false)
    (hwants : wants site every level log = (.error stop, after)) :
    start site every level log = (.error stop, after) := by
  rw [start, if_neg (by simp [hknown])]
  exact bind_of_error hwants

theorem finish_of_active {logger : Logger} {message : Message}
    (hactive : logger.message = some message) (log : Log) :
    logger.finish log = write ⟨logger.site, logger.level, log.stamp, message.text⟩ log := by
  have hentry : logger.entry log =
      (.ok ⟨logger.site, logger.level, log.stamp, message.text⟩, log) := by
    rw [entry, hactive]
    rfl
  rw [finish, isActive, hactive]
  exact bind_of_ok hentry

theorem finish_of_idle {logger : Logger} (hidle : logger.message = none) (log : Log) :
    logger.finish log = (.ok (), log) := by
  rw [finish, isActive, hidle]
  rfl

end Logger

section Say

variable {site : Site} {every : Nat} {level : Level} (parts : List Part) {log after : Log}

theorem sayEvery_of_unknown (hunknown : (!site.isKnown || every == 0) = true) :
    sayEvery site every level parts log = (.error .terminated, log) :=
  bind_of_error (Logger.start_of_unknown hunknown)

/-- A message is written if it is wanted, and forgotten otherwise. -/
theorem sayEvery_of_wants {wanted : Bool} (hknown : (!site.isKnown || every == 0) = false)
    (hwants : wants site every level log = (.ok wanted, after)) :
    sayEvery site every level parts log =
      if wanted then write ⟨site, level, after.stamp, (Message.blank.addAll parts).text⟩ after
      else (.ok (), after) := by
  rw [sayEvery, bind_of_ok (Logger.start_of_wants hknown hwants)]
  cases wanted with
  | true => exact Logger.finish_of_active rfl after
  | false => exact Logger.finish_of_idle rfl after

/-- A question that stops takes the message with it. -/
theorem sayEvery_of_stop {stop : Stop} (hknown : (!site.isKnown || every == 0) = false)
    (hwants : wants site every level log = (.error stop, after)) :
    sayEvery site every level parts log = (.error stop, after) :=
  bind_of_error (Logger.start_of_stop hknown hwants)

end Say

end TokenMint.Log
