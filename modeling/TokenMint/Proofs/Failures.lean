import TokenMint.Proofs.Runs

/-!
# Failing calls leave no trace

A call fails when its source is too weak, when the source does not deliver, and
when the clock raises a fault.  Nothing of it is left behind, so a run may drop
its failing calls and all that they have used up.
-/

namespace TokenMint.Mint

variable {mint other : Mint}

/-- Whether a call fails does not depend on the generator. -/
theorem Fails.of_devices {host : Host} (hfails : mint.Fails host)
    (hclock : mint.clock = other.clock) (hsource : mint.source = other.source) :
    other.Fails host := by
  obtain ⟨answer, later, hfails⟩ := hfails
  refine ⟨answer, later, ?_⟩
  cases hfails with
  | weak hrating =>
      rw [hsource] at hrating ⊢
      exact .weak hrating
  | unread hrating hread hstatus =>
      rw [hsource] at hrating hread
      exact .unread hrating hread hstatus
  | unclocked hrating hread hnow =>
      rw [hsource] at hrating hread
      rw [hclock] at hnow
      exact .unclocked hrating hread hnow

/-- A call changes nothing of a mint but its generator. -/
theorem turn_keeps_devices (mint : Mint) (occasion : Occasion) :
    mint.clock = (mint.turn occasion).after.clock ∧
      mint.source = (mint.turn occasion).after.source := by
  rcases fails_or_meets mint occasion.host with
    ⟨answer, later, hfails⟩ | ⟨bytes, now, hmeets⟩
  · rw [turn_of_failsWith hfails]
    exact ⟨rfl, rfl⟩
  · rw [(turn_of_meets hmeets).2.1]
    exact ⟨rfl, rfl⟩

/-- A run without some of its failing calls hands over the same tokens and ends
in the same mint. -/
theorem filter_fails {occasions : List Occasion} {keep : Occasion → Bool}
    (hdropped : ∀ occasion ∈ occasions, keep occasion = false → mint.Fails occasion.host) :
    mint.tokens (occasions.filter keep) = mint.tokens occasions ∧
      mint.afterAll (occasions.filter keep) = mint.afterAll occasions := by
  induction occasions generalizing mint with
  | nil => exact ⟨rfl, rfl⟩
  | cons occasion rest ih =>
      rw [List.forall_mem_cons] at hdropped
      by_cases hkeep : keep occasion = true
      · have hrest : ∀ occasion' ∈ rest, keep occasion' = false →
            (mint.turn occasion).after.Fails occasion'.host := by
          intro occasion' hmem hdrop
          obtain ⟨hclock, hsource⟩ := turn_keeps_devices mint occasion
          exact (hdropped.2 occasion' hmem hdrop).of_devices hclock hsource
        obtain ⟨htokens, hafter⟩ := ih hrest
        rw [List.filter_cons_of_pos hkeep, tokens_cons, tokens_cons, afterAll_cons,
          afterAll_cons, htokens, hafter]
        exact ⟨rfl, rfl⟩
      · have hfails := hdropped.1 (Bool.eq_false_iff.mpr hkeep)
        rw [List.filter_cons_of_neg hkeep, tokens_cons_of_fails rest hfails,
          afterAll_cons_of_fails rest hfails]
        exact ih hdropped.2

/-- There is hardly another way to fail: a call that has met a word and a time
succeeds, unless a log target stops the warning about a forced tick. -/
theorem fails_or_forces {occasion : Occasion}
    (hanswer : (mint.turn occasion).outcome ≠ .ok Status.ok) :
    mint.Fails occasion.host ∨
      ∃ now word, (mint.generator.commit now word).1.forced = true ∧
        (mint.turn occasion).after.generator = (mint.generator.commit now word).2 := by
  rcases fails_or_meets mint occasion.host with hfails | ⟨bytes, now, hmeets⟩
  · exact Or.inl hfails
  · rcases generate_of_meets hmeets occasion.held with ⟨last, hcall⟩ | ⟨hforced, stop, last, hcall⟩
    · rw [turn_eq hcall] at hanswer
      contradiction
    · rw [turn_eq hcall]
      exact Or.inr ⟨now, BigEndian.decode64 bytes, hforced, rfl⟩

/-- A call that fails answers with its cause and leaves its destination and the
mint as they were.  Without such calls, on the same hosts or on any others where
the calls that are left draw and read the same, a run hands over the same tokens
and ends in the same statistics. -/
theorem failures_leave_no_trace (mint : Mint) :
    (∀ held host answer later, mint.FailsWith host answer later →
      generate (some held, mint, host) = (answer, (some held, mint, later))) ∧
    (∀ (occasions : List Occasion) (keep : Occasion → Bool),
      (∀ occasion ∈ occasions, keep occasion = false → mint.Fails occasion.host) →
        mint.tokens (occasions.filter keep) = mint.tokens occasions ∧
          mint.afterAll (occasions.filter keep) = mint.afterAll occasions) ∧
    ∀ (other : Mint) (occasions others : List Occasion) (met : List (Bytes × UInt64)),
      mint.Mints occasions met → other.generator = mint.generator → other.Mints others met →
        other.tokens others = mint.tokens occasions ∧
          (other.afterAll others).stats = (mint.afterAll occasions).stats := by
  refine ⟨?_, ?_, ?_⟩
  · intro held host answer later hfails
    exact generate_of_failsWith hfails held
  · intro occasions keep hdropped
    exact filter_fails hdropped
  · intro other occasions others met hmints hgenerator hothers
    constructor
    · rw [hmints.tokens_eq, hothers.tokens_eq, hgenerator]
    · rw [stats, stats, hmints.afterAll_eq, hothers.afterAll_eq, hgenerator]

/-- The calls of `jitter` that succeed, on hosts that no other call has used. -/
def smooth : List Occasion :=
  [.scripted Security.strong (.ok 7) (.ok 1000), .scripted Security.strong (.ok 5) (.ok 900),
    .scripted Security.strong (.ok 0) (.ok 2000)]

theorem jitter_leaves_no_trace :
    (∃ failing later, scripted.FailsWith failing (.error (.raised (.foreign 3))) later ∧
      generate (some Token.nil, scripted, failing) =
        (.error (.raised (.foreign 3)), (some Token.nil, scripted, later))) ∧
    (∃ keep : Occasion → Bool,
      (∀ occasion ∈ jitter, keep occasion = false → scripted.Fails occasion.host) ∧
        (jitter.filter keep).length = 3 ∧
        scripted.tokens (jitter.filter keep) = scripted.tokens jitter ∧
        scripted.afterAll (jitter.filter keep) = scripted.afterAll jitter) ∧
    (∃ met, scripted.Mints jitter met ∧ scripted.Mints smooth met) ∧
      scripted.tokens smooth = scripted.tokens jitter ∧
      (scripted.afterAll smooth).stats = (scripted.afterAll jitter).stats := by
  obtain ⟨hcall, hfilter, hmet⟩ := failures_leave_no_trace scripted
  have hsmooth : scripted.Mints smooth
      [(BigEndian.encode64 7, 1000), (BigEndian.encode64 5, 900), (BigEndian.encode64 0, 2000)] :=
    .mint ⟨by decide, _, _, rfl, rfl⟩ rfl
      (.mint ⟨by decide, _, _, rfl, rfl⟩ rfl (.mint ⟨by decide, _, _, rfl, rfl⟩ rfl .nil))
  have hfails : scripted.FailsWith
      (Occasion.scripted Security.secure (.ok 1) (.error (.foreign 3))).host
      (.error (.raised (.foreign 3))) _ := .unclocked (by decide) rfl rfl
  have hdropped : ∀ occasion ∈ jitter,
      (scripted.turn occasion).token?.isSome = false → scripted.Fails occasion.host := by
    simp only [jitter, List.forall_mem_cons]
    refine ⟨?_, ?_, ?_, ?_, ?_, ?_, by simp⟩
    · exact fun hkept => absurd hkept (by decide)
    · exact fun _ => ⟨_, _, hfails⟩
    · exact fun hkept => absurd hkept (by decide)
    · exact fun _ => ⟨_, _, .weak (by decide)⟩
    · exact fun _ => ⟨_, _, .unread (by decide) rfl (by decide)⟩
    · exact fun hkept => absurd hkept (by decide)
  exact ⟨⟨_, _, hfails, hcall _ _ _ _ hfails⟩, ⟨_, hdropped, by decide, hfilter _ _ hdropped⟩,
    ⟨_, jitter_mints, hsmooth⟩, hmet scripted jitter smooth _ jitter_mints rfl hsmooth⟩

end TokenMint.Mint
