import TokenMint.Effect

/-!
# Effects step by step

How the pieces of a computation act on a state.  A computation goes on with the
answer and the state of the part before it, or stops where that part stopped.
-/

namespace TokenMint.Effect

variable {σ τ α β : Type}

@[simp]
theorem pure_apply (value : α) (state : σ) :
    (pure value : Effect σ α) state = (.ok value, state) :=
  rfl

@[simp]
theorem get_apply (state : σ) : (get : Effect σ σ) state = (.ok state, state) :=
  rfl

@[simp]
theorem ofState_apply (step : σ → α × σ) (state : σ) :
    ofState step state = (.ok (step state).1, (step state).2) :=
  rfl

@[simp]
theorem ofExcept_apply (answer : Except Fault α) (state : σ) :
    ofExcept answer state = (answer.mapError Stop.raised, state) := by
  cases answer with
  | ok value => rfl
  | error fault => rfl

theorem bind_of_ok {act : Effect σ α} {next : α → Effect σ β} {state later : σ} {value : α}
    (hact : act state = (.ok value, later)) : (act >>= next) state = next value later := by
  simp only [bind, ExceptT.bind, ExceptT.mk, StateT.bind, hact]
  rfl

theorem bind_of_error {act : Effect σ α} {next : α → Effect σ β} {state later : σ} {stop : Stop}
    (hact : act state = (.error stop, later)) :
    (act >>= next) state = (.error stop, later) := by
  simp only [bind, ExceptT.bind, ExceptT.mk, StateT.bind, hact]
  rfl

/-- A computation that answers has answered at each of its steps. -/
theorem exists_of_bind_ok {act : Effect σ α} {next : α → Effect σ β} {state later : σ}
    {result : β} (hbind : (act >>= next) state = (.ok result, later)) :
    ∃ value between, act state = (.ok value, between) ∧
      next value between = (.ok result, later) := by
  rcases hact : act state with ⟨outcome, between⟩
  cases outcome with
  | ok value =>
      rw [bind_of_ok hact] at hbind
      exact ⟨value, between, rfl, hbind⟩
  | error stop =>
      rw [bind_of_error hact] at hbind
      cases hbind

/-- A computation that answers crosses no boundary. -/
theorem confined_of_ok {inner : Effect σ α} {state later : σ} {value : α}
    (hinner : inner state = (.ok value, later)) :
    confined inner state = (.ok value, later) := by
  rw [confined, hinner]

@[simp]
theorem onPart_apply (part : σ → τ) (replace : σ → τ → σ) (inner : Effect τ α) (state : σ) :
    onPart part replace inner state =
      ((inner (part state)).1, replace state (inner (part state)).2) :=
  rfl

end TokenMint.Effect
