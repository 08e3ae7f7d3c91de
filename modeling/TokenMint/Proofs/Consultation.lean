import TokenMint.Proofs.Delivery
import TokenMint.Proofs.FatalEntries

/-!
# Consultations

The targets are consulted before a message is collected.  They are asked in their order,
each on the journal that the questions before it have left, and the first one that wants
the message ends the consultation.
-/

namespace TokenMint.Log

open Effect

/-- What the question to one target leaves in a journal. -/
def Target.inquiry (target : Target) (site : Site) (level : Level) (journal : Journal) : Journal :=
  match target.wants journal site level with
  | .ok _ => [.asked target.id site level]
  | .error fault => [.asked target.id site level, .reported fault.message.untilNul]

/-- What the questions to these targets leave in a journal, one after the other. -/
def inquiries (site : Site) (level : Level) : List Target → Journal → Journal
  | [], _ => []
  | target :: rest, journal =>
      target.inquiry site level journal ++
        inquiries site level rest (journal ++ target.inquiry site level journal)

/-- Targets are consulted in their order, and all of them unless the entry is wanted.  It
is wanted exactly if there is a target that wants it when its turn comes. -/
structure Consulted (site : Site) (level : Level) (targets : List Target) (journal : Journal)
    (wanted : Bool) (events : Journal) : Prop where
  in_order : ∃ asked spared, targets = asked ++ spared ∧
    events = inquiries site level asked journal ∧ (wanted = false → spared = [])
  wanted_iff : wanted = true ↔ ∃ earlier target later, targets = earlier ++ target :: later ∧
    target.wants (journal ++ inquiries site level earlier journal) site level = .ok true

section Receipts

variable (site : Site) (level : Level)

theorem Target.receipts_inquiry (target : Target) (journal : Journal) :
    (target.inquiry site level journal).receipts = [] := by
  rw [inquiry]
  split
  · rfl
  · rfl

theorem receipts_inquiries (targets : List Target) (journal : Journal) :
    (inquiries site level targets journal).receipts = [] := by
  induction targets generalizing journal with
  | nil => rfl
  | cons target rest ih =>
      rw [inquiries, Journal.receipts_append, target.receipts_inquiry, ih, List.append_nil]

end Receipts

section Consulted

variable {site : Site} {level : Level} {target : Target} {targets rest : List Target}
  {journal events : Journal} {wanted : Bool} {log after : Log}

/-- Nothing is handed out at a consultation. -/
theorem Consulted.receipts_eq (hconsulted : Consulted site level targets journal wanted events) :
    events.receipts = [] := by
  obtain ⟨asked, spared, -, rfl, -⟩ := hconsulted.in_order
  exact receipts_inquiries site level asked journal

theorem Consulted.nobody : Consulted site level [] journal false [] where
  in_order := ⟨[], [], rfl, rfl, fun _ => rfl⟩
  wanted_iff := by simp

theorem Consulted.found (hwants : target.wants journal site level = .ok true) :
    Consulted site level (target :: rest) journal true (target.inquiry site level journal) where
  in_order := ⟨[target], rest, rfl, (List.append_nil _).symm, nofun⟩
  wanted_iff := by
    refine ⟨fun _ => ⟨[], target, rest, rfl, ?_⟩, fun _ => rfl⟩
    rw [inquiries, List.append_nil]
    exact hwants

theorem Consulted.next (hwants : ¬ target.wants journal site level = .ok true)
    (hrest : Consulted site level rest (journal ++ target.inquiry site level journal) wanted
      events) :
    Consulted site level (target :: rest) journal wanted
      (target.inquiry site level journal ++ events) where
  in_order := by
    obtain ⟨asked, spared, rfl, rfl, hall⟩ := hrest.in_order
    exact ⟨target :: asked, spared, rfl, rfl, hall⟩
  wanted_iff := by
    rw [hrest.wanted_iff]
    constructor
    · rintro ⟨earlier, other, later, rfl, hother⟩
      refine ⟨target :: earlier, other, later, rfl, ?_⟩
      rw [inquiries, ← List.append_assoc]
      exact hother
    · rintro ⟨earlier, other, later, htargets, hother⟩
      cases earlier with
      | nil =>
          obtain ⟨rfl, -⟩ := List.cons.inj htargets
          rw [inquiries, List.append_nil] at hother
          exact absurd hother hwants
      | cons head earlier =>
          obtain ⟨rfl, rfl⟩ := List.cons.inj htargets
          rw [inquiries, ← List.append_assoc] at hother
          exact ⟨earlier, other, later, rfl, hother⟩

/-- A question that comes to an answer gets it from the target, or a no from the guard
after a fault of the target. -/
theorem ask_of_ok (hasked : guarded false (ask target site level) log = (.ok wanted, after)) :
    after = log.extend (target.inquiry site level log.journal) ∧
      (wanted = true ↔ target.wants log.journal site level = .ok true) := by
  rw [Target.inquiry]
  rcases cases_of_guarded_ok hasked with hanswer | ⟨fault, before, hfault, rfl, rfl⟩
  · rw [ask_apply, Prod.mk.injEq] at hanswer
    obtain ⟨hwants, rfl⟩ := hanswer
    cases hanswered : target.wants log.journal site level with
    | ok answer =>
        rw [hanswered] at hwants
        cases hwants
        exact ⟨rfl, by simp⟩
    | error fault =>
        rw [hanswered] at hwants
        contradiction
  · rw [ask_apply, Prod.mk.injEq] at hfault
    obtain ⟨hwants, rfl⟩ := hfault
    cases hanswered : target.wants log.journal site level with
    | ok answer =>
        rw [hanswered] at hwants
        contradiction
    | error raised =>
        rw [hanswered] at hwants
        cases hwants
        exact ⟨extend_extend log _ _, by simp⟩

/-- The questions that come to an answer are a consultation. -/
theorem askAny_of_ok (hasked : askAny site level targets log = (.ok wanted, after)) :
    ∃ events, after = log.extend events ∧
      Consulted site level targets log.journal wanted events := by
  induction targets generalizing log with
  | nil =>
      cases hasked
      exact ⟨[], (extend_nil _).symm, .nobody⟩
  | cons target rest ih =>
      obtain ⟨answer, between, hfirst, hrest⟩ := exists_of_bind_ok hasked
      obtain ⟨rfl, hanswer⟩ := ask_of_ok hfirst
      cases answer with
      | true =>
          cases hrest
          exact ⟨_, rfl, .found (hanswer.mp rfl)⟩
      | false =>
          obtain ⟨events, rfl, hconsulted⟩ := ih hrest
          refine ⟨_, extend_extend log _ events, .next ?_ hconsulted⟩
          rw [← hanswer]
          exact Bool.false_ne_true

/-- The questions come to an answer if the faults of the targets can be contained. -/
theorem askAny_consults (hcontained : ∀ target ∈ targets, target.Contained) (site : Site)
    (level : Level) (log : Log) :
    ∃ wanted events, askAny site level targets log = (.ok wanted, log.extend events) ∧
      Consulted site level targets log.journal wanted events := by
  obtain ⟨_, ⟨wanted, hasked⟩ | ⟨fault, hescapes, -⟩⟩ := askAny_raisesOnly site level targets log
  · obtain ⟨events, hafter, hconsulted⟩ := askAny_of_ok hasked
    rw [hafter] at hasked
    exact ⟨wanted, events, hasked, hconsulted⟩
  · exact absurd hescapes (not_escapes hcontained fault)

end Consulted

end TokenMint.Log
