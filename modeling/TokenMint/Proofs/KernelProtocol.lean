import TokenMint.Proofs.Randomness

/-!
# The protocol of a request for randomness

A request asks the random call first, then opens the random device if the kernel does
not have the call, reads the device and closes it.  Each call of a request is a step
between two phases of this protocol, so that what holds of every run of the protocol
holds of the calls of every request, whatever the kernel answers.
-/

namespace TokenMint

namespace KernelCall

/-- How many bytes a call asks for. -/
def asked? : KernelCall → Option Nat
  | getrandom length _ => some length
  | readDevice length _ => some length
  | _ => none

/-- Whether a call is one of the random call. -/
def isRandom : KernelCall → Bool
  | getrandom _ _ => true
  | _ => false

/-- Whether a call has opened the random device. -/
def opens : KernelCall → Bool
  | openDevice (.ok ()) => true
  | _ => false

def closes : KernelCall → Bool
  | closeDevice => true
  | _ => false

/-- The calls behind which the random device is to be opened: a random call that the
kernel does not have, and an attempt to open it that was interrupted. -/
def LeadsToDevice (call : KernelCall) : Prop :=
  (∃ asked, call = getrandom asked (.error Errno.unimplemented)) ∨
    call = openDevice (.error Errno.interrupted)

theorem eq_of_opens {call : KernelCall} (hopens : call.opens = true) :
    call = openDevice (.ok ()) := by
  cases call with
  | openDevice answer =>
      cases answer with
      | ok => rfl
      | error => contradiction
  | _ => contradiction

theorem eq_of_closes {call : KernelCall} (hcloses : call.closes = true) : call = closeDevice := by
  cases call with
  | closeDevice => rfl
  | _ => contradiction

theorem countP_opens_pos_iff {made : List KernelCall} :
    0 < made.countP opens ↔ openDevice (.ok ()) ∈ made := by
  rw [List.countP_pos_iff]
  constructor
  · rintro ⟨call, hmem, hopens⟩
    rw [eq_of_opens hopens] at hmem
    exact hmem
  · intro hmem
    exact ⟨_, hmem, rfl⟩

theorem countP_closes_pos_iff {made : List KernelCall} :
    0 < made.countP closes ↔ closeDevice ∈ made := by
  rw [List.countP_pos_iff]
  constructor
  · rintro ⟨call, hmem, hcloses⟩
    rw [eq_of_closes hcloses] at hmem
    exact hmem
  · intro hmem
    exact ⟨_, hmem, rfl⟩

end KernelCall

namespace SystemRandom

/-- Where a request stands: what it does next, and how many bytes are missing. -/
inductive Phase where
  | asking (missing : Nat)
  | opening (missing : Nat)
  | reading (missing : Nat)
  /-- The device is open and will give no more. -/
  | closing
  | over

/-- `Step phase call next`: a request makes this call in this phase, and its answer
leads to the next one. -/
inductive Step : Phase → KernelCall → Phase → Prop where
  | given {missing : Nat} {data : Bytes} (hfits : data.length ≤ missing + 1) :
      Step (.asking (missing + 1)) (.getrandom (missing + 1) (.ok data))
        (.asking (missing + 1 - data.length))
  | askedAgain {missing : Nat} :
      Step (.asking (missing + 1)) (.getrandom (missing + 1) (.error Errno.interrupted))
        (.asking (missing + 1))
  | unknown {missing : Nat} :
      Step (.asking (missing + 1)) (.getrandom (missing + 1) (.error Errno.unimplemented))
        (.opening (missing + 1))
  | refused {missing : Nat} {errno : Errno} (hcounts : errno ≠ Errno.interrupted)
      (hknown : errno ≠ Errno.unimplemented) :
      Step (.asking (missing + 1)) (.getrandom (missing + 1) (.error errno)) .over
  | opened {missing : Nat} :
      Step (.opening missing) (.openDevice (.ok ())) (.reading missing)
  | openedAgain {missing : Nat} :
      Step (.opening missing) (.openDevice (.error Errno.interrupted)) (.opening missing)
  | notOpened {missing : Nat} {errno : Errno} (hcounts : errno ≠ Errno.interrupted) :
      Step (.opening missing) (.openDevice (.error errno)) .over
  | read {missing : Nat} {data : Bytes} (hwet : data ≠ []) (hfits : data.length ≤ missing + 1) :
      Step (.reading (missing + 1)) (.readDevice (missing + 1) (.ok data))
        (.reading (missing + 1 - data.length))
  | readAgain {missing : Nat} :
      Step (.reading (missing + 1)) (.readDevice (missing + 1) (.error Errno.interrupted))
        (.reading (missing + 1))
  | broken {missing : Nat} {errno : Errno} (hcounts : errno ≠ Errno.interrupted) :
      Step (.reading (missing + 1)) (.readDevice (missing + 1) (.error errno)) .closing
  | dry {missing : Nat} :
      Step (.reading (missing + 1)) (.readDevice (missing + 1) (.ok [])) .closing
  | filled : Step (.reading 0) .closeDevice .over
  | closed : Step .closing .closeDevice .over

/-- Calls that follow each other as steps of the protocol. -/
inductive Run : Phase → List KernelCall → Phase → Prop where
  | nil (phase : Phase) : Run phase [] phase
  | cons {phase next last : Phase} {call : KernelCall} {rest : List KernelCall} :
      Step phase call next → Run next rest last → Run phase (call :: rest) last

section Run

variable {phase next last : Phase} {call : KernelCall} {before after : List KernelCall}

theorem Step.run (hstep : Step phase call next) : Run phase [call] next :=
  .cons hstep (.nil next)

theorem Run.append (hbefore : Run phase before next) (hafter : Run next after last) :
    Run phase (before ++ after) last := by
  induction hbefore with
  | nil => exact hafter
  | cons hstep _ ih => exact .cons hstep (ih hafter)

/-- A run comes by a phase before and behind each of its calls. -/
theorem Run.split (hrun : Run phase (before ++ call :: after) last) :
    ∃ here there, Run phase before here ∧ Step here call there ∧ Run there after last := by
  induction before generalizing phase with
  | nil =>
      cases hrun with
      | cons hstep hrest => exact ⟨phase, _, .nil phase, hstep, hrest⟩
  | cons first before ih =>
      cases hrun with
      | cons hfirst hrest =>
          obtain ⟨here, there, hbefore, hstep, hafter⟩ := ih hrest
          exact ⟨here, there, .cons hfirst hbefore, hstep, hafter⟩

end Run

section Requests

/-- Where the random calls of a request for `length` bytes have led. -/
def Transfer.phase (length : Nat) (transfer : Transfer) : Phase :=
  match transfer.ending with
  | .failed errno =>
      if errno = Errno.unimplemented then .opening (length - transfer.delivered.length) else .over
  | _ => .asking 0

/-- What one more call has delivered is no longer missing. -/
theorem phase_after (call : KernelCall) (data : Bytes) (later : Transfer) (length : Nat) :
    (Transfer.after call data later).phase length = later.phase (length - data.length) := by
  simp only [Transfer.phase, Transfer.after, List.length_append, Nat.sub_sub]

theorem gather_run (answers : List (KernelAnswer Bytes)) (length : Nat) :
    Run (.asking length) (gather answers length).calls
      ((gather answers length).phase length) := by
  induction answers, length using gather.induct with
  | case1 answers =>
      rw [gather]
      exact .nil (.asking 0)
  | case2 length => exact (Step.refused (by decide) (by decide)).run
  | case3 rest length ih =>
      rw [gather, if_pos rfl, phase_after]
      exact .cons .askedAgain ih
  | case4 errno rest length hcounts =>
      rw [gather, if_neg hcounts]
      by_cases hunknown : errno = Errno.unimplemented
      · subst hunknown
        exact Step.unknown.run
      · have hover : (Transfer.endingWith (.getrandom (length + 1) (.error errno)) rest
            (.failed errno)).phase (length + 1) = .over := if_neg hunknown
        rw [hover]
        exact (Step.refused hcounts hunknown).run
  | case5 data rest length taken ih =>
      rw [gather, phase_after]
      exact .cons (.given (List.length_take_le _ _)) ih

theorem openDevice_run (answers : List (KernelAnswer Unit)) (missing : Nat) :
    Run (.opening missing) (openDevice answers).calls
      (if (openDevice answers).failure.isSome then .over else .reading missing) := by
  induction answers using openDevice.induct with
  | case1 => exact Step.opened.run
  | case2 rest ih =>
      rw [openDevice, if_pos rfl]
      exact .cons .openedAgain ih
  | case3 errno rest hcounts =>
      rw [openDevice, if_neg hcounts]
      exact (Step.notOpened hcounts).run
  | case4 rest => exact Step.opened.run

/-- The device is closed at the end of a series of reads, whatever the end is. -/
theorem drain_run (answers : List (KernelAnswer Bytes)) (length : Nat) :
    Run (.reading length) ((drain answers length).calls ++ [.closeDevice]) .over := by
  induction answers, length using drain.induct with
  | case1 answers =>
      rw [drain]
      exact Step.filled.run
  | case2 length => exact .cons .dry Step.closed.run
  | case3 rest length ih =>
      rw [drain, if_pos rfl]
      exact .cons .readAgain ih
  | case4 errno rest length hcounts =>
      rw [drain, if_neg hcounts]
      exact .cons (.broken hcounts) Step.closed.run
  | case5 data rest length taken hdry =>
      rw [drain, if_pos hdry]
      have htaken : data.take (length + 1) = [] := hdry
      rw [htaken]
      exact .cons .dry Step.closed.run
  | case6 data rest length taken hwet ih =>
      rw [drain, if_neg hwet]
      exact .cons (.read hwet (List.length_take_le _ _)) ih

theorem readDevice_run (length : Nat) (kernel : Kernel) :
    ∃ made, (readDevice length kernel).2.calls = kernel.calls ++ made ∧
      Run (.opening length) made .over := by
  have hopening := openDevice_run kernel.opens length
  rw [readDevice]
  cases hfailure : (openDevice kernel.opens).failure with
  | some errno =>
      rw [hfailure] at hopening
      exact ⟨_, rfl, hopening⟩
  | none =>
      rw [hfailure] at hopening
      have hopen : Run (.opening length) (openDevice kernel.opens).calls (.reading length) :=
        hopening
      refine ⟨(openDevice kernel.opens).calls ++
        ((drain kernel.reads length).calls ++ [.closeDevice]), ?_,
        hopen.append (drain_run kernel.reads length)⟩
      simp only [List.append_assoc]

/-- A request runs through the protocol, until nothing is missing or it is over. -/
theorem read_run (length : Nat) (kernel : Kernel) :
    ∃ made last, (read length kernel).2.calls = kernel.calls ++ made ∧
      Run (.asking length) made last ∧ (last = .asking 0 ∨ last = .over) := by
  have hgather := gather_run kernel.entropy length
  rw [read]
  cases hending : (gather kernel.entropy length).ending with
  | complete =>
      rw [Transfer.phase, hending] at hgather
      exact ⟨_, _, rfl, hgather, Or.inl rfl⟩
  | endOfFile =>
      rw [Transfer.phase, hending] at hgather
      exact ⟨_, _, rfl, hgather, Or.inl rfl⟩
  | failed errno =>
      rw [Transfer.phase, hending] at hgather
      by_cases hunknown : errno = Errno.unimplemented
      · simp only [if_pos hunknown] at hgather ⊢
        obtain ⟨made, hcalls, hdevice⟩ :=
          readDevice_run (length - (gather kernel.entropy length).delivered.length)
            { kernel with
              entropy := (gather kernel.entropy length).rest
              calls := kernel.calls ++ (gather kernel.entropy length).calls }
        refine ⟨(gather kernel.entropy length).calls ++ made, .over, ?_,
          hgather.append hdevice, Or.inr rfl⟩
        rw [hcalls, List.append_assoc]
      · simp only [if_neg hunknown] at hgather ⊢
        exact ⟨_, _, rfl, hgather, Or.inr rfl⟩

end Requests

section Laws

variable {phase next last : Phase} {call : KernelCall} {made : List KernelCall} {missing : Nat}

/-- How many bytes are missing, where more may still come. -/
def Phase.missing? : Phase → Option Nat
  | .asking missing => some missing
  | .opening missing => some missing
  | .reading missing => some missing
  | _ => none

/-- Whether the random call may still be made. -/
def Phase.isAsking : Phase → Bool
  | .asking _ => true
  | _ => false

/-- How many devices are open. -/
def Phase.held : Phase → Nat
  | .reading _ => 1
  | .closing => 1
  | _ => 0

/-- A step delivers what it makes less missing. -/
theorem Step.still_missing (hstep : Step phase call next) (hnext : missing ∈ next.missing?) :
    missing + (KernelCall.bytes call).length ∈ phase.missing? := by
  cases hstep with
  | given hfits =>
      cases hnext
      exact congrArg some (Nat.sub_add_cancel hfits).symm
  | read hwet hfits =>
      cases hnext
      exact congrArg some (Nat.sub_add_cancel hfits).symm
  | refused | notOpened | broken | dry | filled | closed => cases hnext
  | _ => exact hnext

theorem Run.still_missing (hrun : Run phase made last) (hlast : missing ∈ last.missing?) :
    missing + (made.flatMap KernelCall.bytes).length ∈ phase.missing? := by
  induction hrun with
  | nil => exact hlast
  | cons hstep _ ih =>
      have hdelivered := hstep.still_missing (ih hlast)
      rw [List.flatMap_cons, List.length_append, Nat.add_comm _ (List.length _), ← Nat.add_assoc]
      exact hdelivered

/-- A call for bytes asks for all that are missing, and some are. -/
theorem Step.asked {asked : Nat} (hstep : Step phase call next) (hasked : asked ∈ call.asked?) :
    asked ∈ phase.missing? ∧ asked ≠ 0 := by
  cases hstep with
  | opened | openedAgain | notOpened | filled | closed => cases hasked
  | _ =>
      cases hasked
      exact ⟨rfl, Nat.succ_ne_zero _⟩

/-- Behind the random calls there are none. -/
theorem Step.not_asking (hstep : Step phase call next) (hphase : phase.isAsking = false) :
    call.isRandom = false ∧ next.isAsking = false := by
  cases hstep with
  | given | askedAgain | unknown | refused => contradiction
  | _ => exact ⟨rfl, rfl⟩

theorem Run.not_asking (hrun : Run phase made last) (hphase : phase.isAsking = false) :
    ∀ call ∈ made, call.isRandom = false := by
  induction hrun with
  | nil => exact nofun
  | cons hstep _ ih =>
      obtain ⟨hcall, hnext⟩ := hstep.not_asking hphase
      exact List.forall_mem_cons.mpr ⟨hcall, ih hnext⟩

theorem Step.leadsToDevice (hstep : Step phase call (.opening missing)) : call.LeadsToDevice := by
  cases hstep with
  | unknown => exact Or.inl ⟨_, rfl⟩
  | openedAgain => exact Or.inr rfl

/-- A run that comes to the opening of the device has just been led there. -/
theorem Run.leadsToDevice (hrun : Run phase (made ++ [call]) (.opening missing)) :
    call.LeadsToDevice := by
  obtain ⟨here, there, -, hstep, hend⟩ := hrun.split
  cases hend
  exact hstep.leadsToDevice

/-- What is opened and not yet closed is held. -/
theorem Step.balance (hstep : Step phase call next) :
    phase.held + (if call.opens then 1 else 0) = (if call.closes then 1 else 0) + next.held := by
  cases hstep with
  | _ => rfl

theorem Run.balance (hrun : Run phase made last) :
    phase.held + made.countP KernelCall.opens = made.countP KernelCall.closes + last.held := by
  induction hrun with
  | nil => simp
  | cons hstep _ ih =>
      have hbalance := hstep.balance
      rw [List.countP_cons, List.countP_cons]
      omega

/-- The device is opened in its own phase, and the random call is done with then. -/
theorem Step.opening {answer : KernelAnswer Unit} (hstep : Step phase (.openDevice answer) next) :
    (∃ missing, phase = .opening missing) ∧ next.isAsking = false := by
  cases hstep with
  | _ => exact ⟨⟨_, rfl⟩, rfl⟩

theorem Step.held_of_open (hstep : Step phase (.openDevice (.ok ())) next) : next.held = 1 := by
  cases hstep with
  | opened => rfl

theorem Step.held_of_read {asked : Nat} {answer : KernelAnswer Bytes}
    (hstep : Step phase (.readDevice asked answer) next) : phase.held = 1 := by
  cases hstep with
  | _ => rfl

/-- A request makes no call when it is over. -/
theorem Run.nil_of_over (hrun : Run .over made last) : made = [] := by
  cases hrun with
  | nil => rfl
  | cons hstep _ => cases hstep

theorem Step.over_of_close (hstep : Step phase .closeDevice next) : next = .over := by
  cases hstep with
  | filled => rfl
  | closed => rfl

end Laws

/-- The calls of a request for `length` bytes keep to the protocol. -/
structure Orderly (length : Nat) (made : List KernelCall) : Prop where
  /-- The device is opened directly behind a random call that the kernel does not have or
  an attempt to open it that was interrupted. -/
  opened_when_due : ∀ before answer after, made = before ++ .openDevice answer :: after →
    ∃ call, before.getLast? = some call ∧ call.LeadsToDevice
  /-- The random call is not made again after that. -/
  asked_no_more : ∀ before answer after, made = before ++ .openDevice answer :: after →
    ∀ call ∈ after, call.isRandom = false
  opened_once : made.countP KernelCall.opens ≤ 1
  /-- The device is read only after it was opened. -/
  read_while_open : ∀ before asked answer after,
    made = before ++ .readDevice asked answer :: after → .openDevice (.ok ()) ∈ before
  /-- A device that was opened is closed by the last call, and by no other. -/
  closed_at_end : ∀ before after, made = before ++ .openDevice (.ok ()) :: after →
    ∃ between, after = between ++ [.closeDevice] ∧ .closeDevice ∉ before ++ between
  /-- What was not opened is not closed. -/
  closed_if_opened : .closeDevice ∈ made → .openDevice (.ok ()) ∈ made
  /-- A call for bytes asks for all that have not been delivered, and not for nothing. -/
  asks_for_missing : ∀ before call after, made = before ++ call :: after →
    ∀ asked ∈ call.asked?,
      asked + (before.flatMap KernelCall.bytes).length = length ∧ asked ≠ 0

section Orderly

variable {phase last : Phase} {made before after : List KernelCall} {length : Nat}

/-- Only the last call of a run closes the device. -/
theorem Run.nil_of_close (hrun : Run phase (before ++ .closeDevice :: after) last) :
    after = [] := by
  obtain ⟨here, there, -, hstep, hafter⟩ := hrun.split
  rw [hstep.over_of_close] at hafter
  exact hafter.nil_of_over

theorem Run.countP_closes_le (hrun : Run phase made last) :
    made.countP KernelCall.closes ≤ 1 := by
  induction hrun with
  | nil => simp
  | @cons phase next last call rest hstep hrest ih =>
      cases hcloses : call.closes with
      | false =>
          rw [List.countP_cons_of_neg (by simp [hcloses])]
          exact ih
      | true =>
          rw [KernelCall.eq_of_closes hcloses] at hstep
          rw [hstep.over_of_close] at hrest
          rw [hrest.nil_of_over, List.countP_cons_of_pos hcloses]
          exact Nat.le_refl 1

/-- A device that is held at the start of a run, and not at its end, is closed by the
last call and by no other. -/
theorem Run.closed_at_end (hrun : Run phase made last) (hphase : phase.held = 1)
    (hlast : last.held = 0) :
    ∃ between, made = between ++ [.closeDevice] ∧ .closeDevice ∉ between := by
  have hbalance := hrun.balance
  have hmem : .closeDevice ∈ made := KernelCall.countP_closes_pos_iff.mp (by omega)
  obtain ⟨between, rest, rfl⟩ := List.append_of_mem hmem
  have hrest := hrun.nil_of_close
  subst hrest
  refine ⟨between, rfl, ?_⟩
  intro hbetween
  obtain ⟨front, back, rfl⟩ := List.append_of_mem hbetween
  rw [List.append_assoc] at hrun
  exact absurd hrun.nil_of_close (by simp)

/-- A request opens the device as often as it closes it or holds it still. -/
theorem Run.countP_opens (hrun : Run (.asking length) made last) :
    made.countP KernelCall.opens = made.countP KernelCall.closes + last.held := by
  have hbalance := hrun.balance
  have hstart : (Phase.asking length).held = 0 := rfl
  omega

/-- Every run of the protocol is orderly, once nothing is held. -/
theorem Run.orderly (hrun : Run (.asking length) made last) (hlast : last.held = 0) :
    Orderly length made := by
  constructor
  case opened_when_due =>
    rintro before answer after rfl
    obtain ⟨here, there, hbefore, hstep, -⟩ := hrun.split
    obtain ⟨⟨missing, rfl⟩, -⟩ := hstep.opening
    rcases List.eq_nil_or_concat before with rfl | ⟨front, call, rfl⟩
    · cases hbefore
    · rw [List.concat_eq_append] at hbefore
      exact ⟨call, by simp, hbefore.leadsToDevice⟩
  case asked_no_more =>
    rintro before answer after rfl
    obtain ⟨here, there, -, hstep, hafter⟩ := hrun.split
    exact hafter.not_asking hstep.opening.2
  case opened_once =>
    have hopens := hrun.countP_opens
    have hcloses := hrun.countP_closes_le
    omega
  case read_while_open =>
    rintro before asked answer after rfl
    obtain ⟨here, there, hbefore, hstep, -⟩ := hrun.split
    have hopens := hbefore.countP_opens
    rw [hstep.held_of_read] at hopens
    exact KernelCall.countP_opens_pos_iff.mp (by omega)
  case closed_at_end =>
    rintro before after rfl
    obtain ⟨here, there, -, hstep, hafter⟩ := hrun.split
    obtain ⟨between, rfl, hbetween⟩ := hafter.closed_at_end hstep.held_of_open hlast
    refine ⟨between, rfl, ?_⟩
    intro hmem
    rcases List.mem_append.mp hmem with hbefore | hafter
    · obtain ⟨front, back, rfl⟩ := List.append_of_mem hbefore
      rw [List.append_assoc] at hrun
      exact absurd hrun.nil_of_close (by simp)
    · exact hbetween hafter
  case closed_if_opened =>
    intro hmem
    have hopens := hrun.countP_opens
    have hcloses := KernelCall.countP_closes_pos_iff.mpr hmem
    exact KernelCall.countP_opens_pos_iff.mp (by omega)
  case asks_for_missing =>
    rintro before call after rfl asked hasked
    obtain ⟨here, there, hbefore, hstep, -⟩ := hrun.split
    obtain ⟨hmissing, hsome⟩ := hstep.asked hasked
    exact ⟨(Option.some.inj (hbefore.still_missing hmissing)).symm, hsome⟩

end Orderly

end SystemRandom

namespace RandomSource

open SystemRandom

/-- A request to the kernel for `length` bytes returns, and the calls that it makes keep
to the protocol, whatever the kernel answers. -/
theorem request_keeps_protocol (buffer : Bytes) (length : Nat) (host : Host) :
    ∃ status filled later made,
      system.read (some buffer) length host = (.ok (status, filled), later) ∧
      later.kernel.calls = host.kernel.calls ++ made ∧
      Orderly length made := by
  obtain ⟨made, last, hcalls, hrun, hlast⟩ := read_run length host.kernel
  have hheld : last.held = 0 := by
    rcases hlast with rfl | rfl
    · rfl
    · rfl
  exact ⟨_, _, _, made, system_read_some buffer length host, hcalls, hrun.orderly hheld⟩

/-- The calls of the request for seven bytes to the troubled kernel. -/
theorem troubled_request_keeps_protocol :
    let made : List KernelCall :=
      [.getrandom 7 (.error Errno.interrupted), .getrandom 7 (.ok [1, 2]), .getrandom 5 (.ok []),
        .getrandom 5 (.error Errno.unimplemented), .openDevice (.error Errno.interrupted),
        .openDevice (.ok ()), .readDevice 5 (.ok [3]), .readDevice 4 (.error Errno.interrupted),
        .readDevice 4 (.ok [4, 5, 6]), .readDevice 1 (.ok []), .closeDevice]
    (∃ answer later,
      system.read (some (List.replicate 7 0xee)) 7 troubled = (.ok answer, later) ∧
        later.kernel.calls = made) ∧
      Orderly 7 made := by
  intro made
  obtain ⟨status, filled, later, calls, hread, hcalls, horderly⟩ :=
    request_keeps_protocol (List.replicate 7 0xee) 7 troubled
  have hmade : (system.read (some (List.replicate 7 0xee)) 7 troubled).2.kernel.calls = made := rfl
  rw [hread] at hmade
  have hlater : calls = made := hcalls.symm.trans hmade
  rw [hlater] at horderly
  exact ⟨⟨_, later, hread, hmade⟩, horderly⟩

end RandomSource

end TokenMint
