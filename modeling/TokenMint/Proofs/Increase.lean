import TokenMint.Proofs.Layout
import TokenMint.Proofs.Runs

/-!
# Tokens of a run increase

Every token takes a free position of its generator, and positions are never
free again, so the tokens of a run increase from one to the next.  Timestamps
are cut to 48 bits; the order survives as long as the generator stays in one
window of 2^48 milliseconds.
-/

namespace TokenMint

namespace Mint

/-- What a call does to the positions of its generator. -/
structure Turn.Advances (turn : Turn) : Prop where
  sound : turn.after.generator.Sound
  floor_le : turn.before.generator.floor ≤ turn.after.generator.floor
  takes : ∀ token, turn.token? = some token →
    turn.before.generator.Advances turn.after.generator ∧
      ∃ word, token = Token.pack turn.after.generator.lastMs turn.after.generator.counter word

theorem turn_advances {mint : Mint} {occasion : Occasion} (hsound : mint.generator.Sound)
    (hwithin : ¬ (mint.turn occasion).Overruns) : (mint.turn occasion).Advances := by
  rcases fails_or_meets mint occasion.host with
    ⟨answer, later, hfails⟩ | ⟨bytes, now, hmeets⟩
  · have htoken := token?_of_failsWith hfails
    rw [turn_of_failsWith hfails] at htoken ⊢
    refine ⟨hsound, Nat.le_refl _, ?_⟩
    intro token hsome
    rw [htoken] at hsome
    contradiction
  · obtain ⟨hbefore, hafter, htoken⟩ := turn_of_meets hmeets
    rw [Turn.Overruns, hbefore, hafter] at hwithin
    have hadvances := Generator.commit_advances hsound now (BigEndian.decode64 bytes) hwithin
    refine ⟨?_, ?_, ?_⟩
    · rw [hafter]
      exact hadvances.sound
    · rw [hbefore, hafter, hadvances.leaves]
      exact Nat.le_succ_of_le hadvances.takes
    · intro token hsome
      rw [hbefore, hafter]
      exact ⟨hadvances, _, htoken token hsome⟩

theorem turns_advance {mint : Mint} {occasions : List Occasion} (hsound : mint.generator.Sound)
    (hwithin : ∀ turn ∈ mint.turns occasions, ¬ turn.Overruns) :
    ∀ turn ∈ mint.turns occasions,
      turn.Advances ∧ mint.generator.floor ≤ turn.before.generator.floor := by
  induction occasions generalizing mint with
  | nil => simp [turns]
  | cons occasion rest ih =>
      rw [turns, List.forall_mem_cons] at hwithin ⊢
      have hadvances := turn_advances hsound hwithin.1
      refine ⟨⟨hadvances, Nat.le_refl _⟩, ?_⟩
      intro turn hturn
      obtain ⟨hturnAdvances, hle⟩ := ih hadvances.sound hwithin.2 turn hturn
      exact ⟨hturnAdvances, Nat.le_trans hadvances.floor_le hle⟩

/-- Earlier calls take positions that are not free for later ones. -/
theorem turns_ordered {mint : Mint} {occasions : List Occasion} (hsound : mint.generator.Sound)
    (hwithin : ∀ turn ∈ mint.turns occasions, ¬ turn.Overruns) :
    (mint.turns occasions).Pairwise fun first later =>
      first.after.generator.floor ≤ later.before.generator.floor := by
  induction occasions generalizing mint with
  | nil => exact List.Pairwise.nil
  | cons occasion rest ih =>
      rw [turns, List.forall_mem_cons] at hwithin
      have hadvances := turn_advances hsound hwithin.1
      rw [turns, List.pairwise_cons]
      constructor
      · intro later hlater
        exact (turns_advance hadvances.sound hwithin.2 later hlater).2
      · exact ih hadvances.sound hwithin.2

/-- Tokens of two calls, one after the other, are in order as long as their
timestamps lie in one window. -/
theorem Turn.Advances.token_lt {first later : Turn} (hfirst : first.Advances)
    (hlater : later.Advances)
    (hordered : first.after.generator.floor ≤ later.before.generator.floor) {a b : Token}
    (hfirstToken : first.token? = some a) (hlaterToken : later.token? = some b)
    (hwindow : first.after.generator.lastMs.toNat / 2 ^ 48 =
      later.after.generator.lastMs.toNat / 2 ^ 48) :
    a.compare b = .lt ∧ a.lt b = true := by
  obtain ⟨hleaves, firstWord, hpackA⟩ := hfirst.takes a hfirstToken
  obtain ⟨htakes, laterWord, hpackB⟩ := hlater.takes b hlaterToken
  have hposition : first.after.generator.position < later.after.generator.position :=
    calc first.after.generator.position
      _ < first.after.generator.floor := Nat.lt_of_succ_le (Nat.le_of_eq hleaves.leaves.symm)
      _ ≤ later.before.generator.floor := hordered
      _ ≤ later.after.generator.position := htakes.takes
  have hcompare : a.compare b = .lt := by
    rw [hpackA, hpackB]
    exact Token.compare_pack_eq_lt hfirst.sound.counter_lt hlater.sound.counter_lt hwindow
      hposition
  refine ⟨hcompare, Token.lt_of_compare_eq_lt ?_ ?_ hcompare⟩
  · rw [hpackA, hpackB, Token.version_pack, Token.version_pack]
  · rw [hpackA, hpackB, Token.variant_pack, Token.variant_pack]

/-- Any two tokens of a run from a fresh generator are in order and differ in
timestamp or counter, as long as their timestamps lie in one window. -/
theorem tokens_increase_within_window {mint : Mint}
    (hfresh : mint.generator = Generator.fresh) {occasions : List Occasion}
    (hwithin : ∀ turn ∈ mint.turns occasions, ¬ turn.Overruns) :
    (mint.turns occasions).Pairwise fun first later =>
      ∀ a b, first.token? = some a → later.token? = some b →
        first.after.generator.lastMs.toNat / 2 ^ 48 =
          later.after.generator.lastMs.toNat / 2 ^ 48 →
        a.compare b = .lt ∧ a.lt b = true ∧
          (a.timestamp, a.counter) ≠ (b.timestamp, b.counter) := by
  have hsound : mint.generator.Sound := by
    rw [hfresh]
    exact Generator.fresh_sound
  refine (turns_ordered hsound hwithin).imp_of_mem ?_
  intro first later hfirst hlater hordered a b hfirstToken hlaterToken hwindow
  obtain ⟨hcompare, hlt⟩ := Turn.Advances.token_lt (turns_advance hsound hwithin first hfirst).1
    (turns_advance hsound hwithin later hlater).1 hordered hfirstToken hlaterToken hwindow
  exact ⟨hcompare, hlt, Token.pair_ne_of_compare_eq_lt hcompare⟩

theorem jitter_increases :
    scripted.tokens jitter =
        [Token.pack 1000 0 7, Token.pack 1000 1 5, Token.pack 2000 0 0] ∧
      (scripted.turns jitter).Pairwise fun first later =>
        ∀ a b, first.token? = some a → later.token? = some b →
          first.after.generator.lastMs.toNat / 2 ^ 48 =
            later.after.generator.lastMs.toNat / 2 ^ 48 →
          a.compare b = .lt ∧ a.lt b = true ∧
            (a.timestamp, a.counter) ≠ (b.timestamp, b.counter) :=
  ⟨by decide, tokens_increase_within_window rfl (by decide)⟩

end Mint

end TokenMint
