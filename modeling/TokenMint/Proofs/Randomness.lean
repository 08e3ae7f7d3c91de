import Mathlib.Logic.Basic
import TokenMint.Proofs.Calls
import TokenMint.Proofs.StatusText

/-!
# What a request for randomness delivers

The answers of the kernel, without those that only make a call be made again, are a
supply of bytes with an end: the bytes of the random call until it fails, and those
of the random device until it fails or ends if the call is one that the kernel does
not have.  A request takes its bytes from the front of the supply, and it is
refused with the reason at the end if there are too few.
-/

namespace TokenMint

section Overwrite

variable {buffer written : Bytes}

theorem Bytes.overwrite_nil (buffer : Bytes) : buffer.overwrite [] = buffer := by
  rw [overwrite, List.take_nil, List.nil_append]
  rfl

/-- What is written stands at the front of the buffer. -/
theorem Bytes.take_overwrite (hfits : written.length ≤ buffer.length) :
    (buffer.overwrite written).take written.length = written := by
  rw [overwrite_of_le hfits, List.take_left]

/-- Nothing behind the place for it is written. -/
theorem Bytes.drop_overwrite {length : Nat} (hwritten : written.length ≤ length)
    (hroom : length ≤ buffer.length) :
    (buffer.overwrite written).drop length = buffer.drop length := by
  rw [overwrite_of_le (Nat.le_trans hwritten hroom), List.drop_append,
    List.drop_eq_nil_of_le hwritten, List.nil_append, List.drop_drop,
    Nat.add_sub_cancel' hwritten]

end Overwrite

namespace KernelAnswer

/-- The error number of an answer, if it is an error. -/
def errno? {α : Type} : KernelAnswer α → Option Errno
  | .error errno => some errno
  | .ok _ => none

/-- The bytes of an answer; an error has none. -/
def bytes : KernelAnswer Bytes → Bytes
  | .error _ => []
  | .ok data => data

/-- Whether an answer ends a series of random calls. -/
def fails (answer : KernelAnswer Bytes) : Bool :=
  answer.errno?.isSome

/-- Whether an answer ends a series of reads from the random device. -/
def isDry (answer : KernelAnswer Bytes) : Bool :=
  answer.bytes == []

/-- The answers that count.  After an interruption the same call is made again. -/
def settled {α : Type} (answers : List (KernelAnswer α)) : List (KernelAnswer α) :=
  answers.filter fun answer => answer.errno? ≠ some Errno.interrupted

/-- The bytes of the answers in front of the first one that ends the series. -/
def flow (ends : KernelAnswer Bytes → Bool) (answers : List (KernelAnswer Bytes)) : Bytes :=
  ((settled answers).takeWhile fun answer => !ends answer).flatMap bytes

/-- The answer that ends the series. -/
def stop (ends : KernelAnswer Bytes → Bool) (answers : List (KernelAnswer Bytes)) :
    Option (KernelAnswer Bytes) :=
  (settled answers).find? ends

section Settled

variable {α : Type} (rest : List (KernelAnswer α))

@[simp]
theorem settled_interrupted :
    settled (.error Errno.interrupted :: rest) = settled rest :=
  List.filter_cons_of_neg (by simp [errno?])

theorem settled_error {errno : Errno} (hcounts : ¬ errno = Errno.interrupted) :
    settled (.error errno :: rest) = .error errno :: settled rest :=
  List.filter_cons_of_pos (by simp [errno?, hcounts])

@[simp]
theorem settled_ok (value : α) : settled (.ok value :: rest) = .ok value :: settled rest :=
  List.filter_cons_of_pos (by simp [errno?])

end Settled

section Series

variable {ends : KernelAnswer Bytes → Bool} (rest : List (KernelAnswer Bytes))

@[simp]
theorem flow_interrupted : flow ends (.error Errno.interrupted :: rest) = flow ends rest := by
  rw [flow, settled_interrupted, flow]

@[simp]
theorem stop_interrupted : stop ends (.error Errno.interrupted :: rest) = stop ends rest := by
  rw [stop, settled_interrupted, stop]

theorem flow_error {errno : Errno} (hcounts : ¬ errno = Errno.interrupted)
    (hends : ends (.error errno) = true) : flow ends (.error errno :: rest) = [] := by
  rw [flow, settled_error rest hcounts, List.takeWhile_cons_of_neg (by simp [hends])]
  rfl

theorem stop_error {errno : Errno} (hcounts : ¬ errno = Errno.interrupted)
    (hends : ends (.error errno) = true) :
    stop ends (.error errno :: rest) = some (.error errno) := by
  rw [stop, settled_error rest hcounts, List.find?_cons_of_pos hends]

theorem flow_end {data : Bytes} (hends : ends (.ok data) = true) :
    flow ends (.ok data :: rest) = [] := by
  rw [flow, settled_ok, List.takeWhile_cons_of_neg (by simp [hends])]
  rfl

theorem stop_end {data : Bytes} (hends : ends (.ok data) = true) :
    stop ends (.ok data :: rest) = some (.ok data) := by
  rw [stop, settled_ok, List.find?_cons_of_pos hends]

theorem flow_ok {data : Bytes} (hgoes : ends (.ok data) = false) :
    flow ends (.ok data :: rest) = data ++ flow ends rest := by
  rw [flow, settled_ok, List.takeWhile_cons_of_pos (by simp [hgoes]), List.flatMap_cons]
  rfl

theorem stop_ok {data : Bytes} (hgoes : ends (.ok data) = false) :
    stop ends (.ok data :: rest) = stop ends rest := by
  rw [stop, settled_ok, List.find?_cons_of_neg (by simp [hgoes]), stop]

end Series

end KernelAnswer

namespace SystemRandom

open KernelAnswer

/-- The error with which the random call ends.  The device behind it has failed when
there is no answer left. -/
def entropyErrno (answers : List (KernelAnswer Bytes)) : Errno :=
  ((stop fails answers).bind errno?).getD Errno.ioFailure

/-- How the random device ends. -/
def deviceEnding (answers : List (KernelAnswer Bytes)) : Ending :=
  match (stop isDry answers).bind errno? with
  | some errno => .failed errno
  | none => .endOfFile

/-- The error with which the random device refuses to open, if it does. -/
def openErrno (answers : List (KernelAnswer Unit)) : Option Errno :=
  (settled answers).head?.bind errno?

/-- Whether requests go on to the random device. -/
def reachesDevice (kernel : Kernel) : Bool :=
  entropyErrno kernel.entropy = Errno.unimplemented && openErrno kernel.opens = none

/-- The bytes that a request can have, however many it asks for. -/
def supply (kernel : Kernel) : Bytes :=
  flow fails kernel.entropy ++ if reachesDevice kernel then flow isDry kernel.reads else []

/-- Why a request cannot have more. -/
def shortage (kernel : Kernel) : Status :=
  if entropyErrno kernel.entropy = Errno.unimplemented then
    match openErrno kernel.opens with
    | some errno => Status.ofErrno errno (ascii "open(2) path=/dev/urandom")
    | none =>
        match deviceEnding kernel.reads with
        | .failed errno => Status.ofErrno errno (ascii "read(2) path=/dev/urandom")
        | _ => Status.dataLoss (ascii "short read from /dev/urandom")
  else Status.ofErrno (entropyErrno kernel.entropy) (ascii "getrandom(2)")

section Series

/-- What is still missing after an answer is taken from what follows it. -/
theorem take_append_take (data rest : Bytes) (length : Nat) :
    data.take length ++ rest.take (length - (data.take length).length) =
      (data ++ rest).take length := by
  have hmissing : length - (data.take length).length = length - data.length := by
    rw [List.length_take]
    omega
  rw [hmissing, List.take_append]

theorem served_iff (data rest : Bytes) (length : Nat) :
    length - (data.take length).length ≤ rest.length ↔ length ≤ (data ++ rest).length := by
  rw [List.length_take, List.length_append]
  omega

theorem gather_delivered (answers : List (KernelAnswer Bytes)) (length : Nat) :
    (gather answers length).delivered = (flow fails answers).take length := by
  induction answers, length using gather.induct with
  | case1 answers => rw [gather, List.take_zero]
  | case2 length => rfl
  | case3 rest length ih =>
      rw [gather, if_pos rfl, flow_interrupted]
      exact ih
  | case4 errno rest length hcounts =>
      rw [gather, if_neg hcounts, flow_error rest hcounts rfl]
      rfl
  | case5 data rest length taken ih =>
      rw [gather, flow_ok rest rfl, ← take_append_take, ← ih]
      rfl

/-- The random call fails only if a request is not served before that. -/
theorem gather_ending (answers : List (KernelAnswer Bytes)) (length : Nat) :
    (gather answers length).ending =
      if length ≤ (flow fails answers).length then .complete
      else .failed (entropyErrno answers) := by
  induction answers, length using gather.induct with
  | case1 answers => rw [gather, if_pos (Nat.zero_le _)]
  | case2 length => rfl
  | case3 rest length ih =>
      rw [gather, if_pos rfl, flow_interrupted, entropyErrno, stop_interrupted]
      exact ih
  | case4 errno rest length hcounts =>
      rw [gather, if_neg hcounts, flow_error rest hcounts rfl, entropyErrno,
        stop_error rest hcounts rfl]
      rfl
  | case5 data rest length taken ih =>
      rw [gather, flow_ok rest rfl, entropyErrno, stop_ok rest rfl,
        ← if_congr (served_iff data _ _) rfl rfl]
      exact ih

theorem isDry_eq_false {data : Bytes} {length : Nat} (htaken : ¬ data.take (length + 1) = []) :
    isDry (.ok data) = false := by
  cases data with
  | nil => exact absurd rfl htaken
  | cons byte data => rfl

theorem isDry_eq_true {data : Bytes} {length : Nat} (htaken : data.take (length + 1) = []) :
    isDry (.ok data) = true := by
  cases data with
  | nil => rfl
  | cons byte data => contradiction

theorem drain_delivered (answers : List (KernelAnswer Bytes)) (length : Nat) :
    (drain answers length).delivered = (flow isDry answers).take length := by
  induction answers, length using drain.induct with
  | case1 answers => rw [drain, List.take_zero]
  | case2 length => rfl
  | case3 rest length ih =>
      rw [drain, if_pos rfl, flow_interrupted]
      exact ih
  | case4 errno rest length hcounts =>
      rw [drain, if_neg hcounts, flow_error rest hcounts rfl]
      rfl
  | case5 data rest length taken hdry =>
      rw [drain, if_pos hdry, flow_end rest (isDry_eq_true hdry)]
      rfl
  | case6 data rest length taken hwet ih =>
      rw [drain, if_neg hwet, flow_ok rest (isDry_eq_false hwet), ← take_append_take, ← ih]
      rfl

theorem drain_ending (answers : List (KernelAnswer Bytes)) (length : Nat) :
    (drain answers length).ending =
      if length ≤ (flow isDry answers).length then .complete else deviceEnding answers := by
  induction answers, length using drain.induct with
  | case1 answers => rw [drain, if_pos (Nat.zero_le _)]
  | case2 length => rfl
  | case3 rest length ih =>
      rw [drain, if_pos rfl, flow_interrupted, deviceEnding, stop_interrupted]
      exact ih
  | case4 errno rest length hcounts =>
      rw [drain, if_neg hcounts, flow_error rest hcounts rfl, deviceEnding,
        stop_error rest hcounts rfl]
      rfl
  | case5 data rest length taken hdry =>
      have hends := isDry_eq_true hdry
      rw [drain, if_pos hdry, flow_end rest hends, deviceEnding, stop_end rest hends]
      rfl
  | case6 data rest length taken hwet ih =>
      have hgoes := isDry_eq_false hwet
      rw [drain, if_neg hwet, flow_ok rest hgoes, deviceEnding, stop_ok rest hgoes,
        ← if_congr (served_iff data _ _) rfl rfl]
      exact ih

theorem openDevice_failure (answers : List (KernelAnswer Unit)) :
    (openDevice answers).failure = openErrno answers := by
  induction answers using openDevice.induct with
  | case1 => rfl
  | case2 rest ih =>
      rw [openDevice, if_pos rfl, openErrno, settled_interrupted]
      exact ih
  | case3 errno rest hcounts =>
      rw [openDevice, if_neg hcounts, openErrno, settled_error rest hcounts]
      rfl
  | case4 rest => rfl

end Series

section Calls

/-- The bytes that a call has delivered. -/
def KernelCall.bytes : KernelCall → Bytes
  | .getrandom _ answer => KernelAnswer.bytes answer
  | .readDevice _ answer => KernelAnswer.bytes answer
  | _ => []

theorem gather_calls (answers : List (KernelAnswer Bytes)) (length : Nat) :
    (gather answers length).calls.flatMap KernelCall.bytes =
      (gather answers length).delivered := by
  induction answers, length using gather.induct with
  | case1 answers => rw [gather]; rfl
  | case2 length => rfl
  | case3 rest length ih =>
      rw [gather, if_pos rfl]
      exact ih
  | case4 errno rest length hcounts =>
      rw [gather, if_neg hcounts]
      rfl
  | case5 data rest length taken ih =>
      rw [gather]
      exact congrArg (taken ++ ·) ih

theorem drain_calls (answers : List (KernelAnswer Bytes)) (length : Nat) :
    (drain answers length).calls.flatMap KernelCall.bytes = (drain answers length).delivered := by
  induction answers, length using drain.induct with
  | case1 answers => rw [drain]; rfl
  | case2 length => rfl
  | case3 rest length ih =>
      rw [drain, if_pos rfl]
      exact ih
  | case4 errno rest length hcounts =>
      rw [drain, if_neg hcounts]
      rfl
  | case5 data rest length taken hdry =>
      rw [drain, if_pos hdry]
      exact congrArg (· ++ []) hdry
  | case6 data rest length taken hwet ih =>
      rw [drain, if_neg hwet]
      exact congrArg (taken ++ ·) ih

theorem openDevice_calls (answers : List (KernelAnswer Unit)) :
    (openDevice answers).calls.flatMap KernelCall.bytes = [] := by
  induction answers using openDevice.induct with
  | case1 => rfl
  | case2 rest ih =>
      rw [openDevice, if_pos rfl]
      exact ih
  | case3 errno rest hcounts =>
      rw [openDevice, if_neg hcounts]
      rfl
  | case4 rest => rfl

end Calls

section Read

variable {kernel : Kernel} {length : Nat}

theorem readDevice_of_refusal {errno : Errno} (hrefused : openErrno kernel.opens = some errno)
    (length : Nat) :
    (readDevice length kernel).1 =
      ⟨Status.ofErrno errno (ascii "open(2) path=/dev/urandom"), []⟩ := by
  rw [readDevice, openDevice_failure, hrefused]
  rfl

theorem readDevice_of_open (hopen : openErrno kernel.opens = none) (length : Nat) :
    (readDevice length kernel).1 =
      ⟨if length ≤ (flow isDry kernel.reads).length then Status.ok
        else drainStatus (deviceEnding kernel.reads), (flow isDry kernel.reads).take length⟩ := by
  rw [readDevice, openDevice_failure, hopen]
  simp only [drain_ending, drain_delivered, apply_ite drainStatus]
  rfl

theorem supply_of_failure (hfails : reachesDevice kernel = false) :
    supply kernel = flow fails kernel.entropy := by
  rw [supply, hfails, if_neg Bool.false_ne_true, List.append_nil]

theorem supply_of_device (hreaches : reachesDevice kernel = true) :
    supply kernel = flow fails kernel.entropy ++ flow isDry kernel.reads := by
  rw [supply, hreaches, if_pos rfl]

theorem drainStatus_deviceEnding (hmissing : entropyErrno kernel.entropy = Errno.unimplemented)
    (hopen : openErrno kernel.opens = none) :
    drainStatus (deviceEnding kernel.reads) = shortage kernel := by
  rw [shortage, if_pos hmissing, hopen, deviceEnding]
  cases (stop isDry kernel.reads).bind errno? with
  | none => rfl
  | some errno => rfl

/-- The kernel behind the random calls of a request. -/
def afterGather (length : Nat) (kernel : Kernel) : Kernel :=
  { kernel with
    entropy := (gather kernel.entropy length).rest
    calls := kernel.calls ++ (gather kernel.entropy length).calls }

theorem read_of_served (hserved : length ≤ (flow fails kernel.entropy).length) :
    read length kernel =
      (⟨Status.ok, (flow fails kernel.entropy).take length⟩, afterGather length kernel) := by
  rw [read]
  simp only [gather_ending, gather_delivered, if_pos hserved]
  rfl

theorem read_zero (kernel : Kernel) : read 0 kernel = (⟨Status.ok, []⟩, kernel) := by
  rw [read_of_served (Nat.zero_le _), afterGather, gather, List.append_nil]
  rfl

/-- If the random call delivers too little, the random device has to do the rest, or
nobody does. -/
theorem read_of_short (hshort : (flow fails kernel.entropy).length < length) :
    read length kernel =
      if entropyErrno kernel.entropy = Errno.unimplemented then
        let (outcome, after) :=
          readDevice (length - (flow fails kernel.entropy).length) (afterGather length kernel)
        (⟨outcome.status, flow fails kernel.entropy ++ outcome.delivered⟩, after)
      else
        (⟨Status.ofErrno (entropyErrno kernel.entropy) (ascii "getrandom(2)"),
          flow fails kernel.entropy⟩, afterGather length kernel) := by
  rw [read]
  simp only [gather_ending, gather_delivered, if_neg (Nat.not_le.mpr hshort),
    List.take_of_length_le (Nat.le_of_lt hshort)]
  rfl

/-- What becomes of a request depends on the supply: it is served from the front of
it, and refused if there is not enough. -/
theorem read_outcome (length : Nat) (kernel : Kernel) :
    (read length kernel).1 =
      ⟨if length ≤ (supply kernel).length then Status.ok else shortage kernel,
        (supply kernel).take length⟩ := by
  rcases Nat.lt_or_ge (flow fails kernel.entropy).length length with hshort | hserved
  · have hrest := List.take_of_length_le (Nat.le_of_lt hshort)
    rw [read_of_short hshort]
    by_cases hmissing : entropyErrno kernel.entropy = Errno.unimplemented
    · rw [if_pos hmissing]
      cases hopen : openErrno kernel.opens with
      | some errno =>
          have hdevice := @readDevice_of_refusal (afterGather length kernel) errno hopen
          rw [supply_of_failure (by simp [reachesDevice, hopen]), if_neg (Nat.not_le.mpr hshort),
            shortage, if_pos hmissing, hopen, hrest]
          simp only [hdevice, List.append_nil]
      | none =>
          have hdevice := @readDevice_of_open (afterGather length kernel) hopen
          have hserved : length - (flow fails kernel.entropy).length ≤
              (flow isDry kernel.reads).length ↔
                length ≤ (flow fails kernel.entropy ++ flow isDry kernel.reads).length := by
            rw [List.length_append]
            omega
          rw [supply_of_device (by simp [reachesDevice, hopen, hmissing]), List.take_append, hrest,
            ← drainStatus_deviceEnding hmissing hopen, ← if_congr hserved rfl rfl]
          simp only [hdevice]
          rfl
    · rw [if_neg hmissing, supply_of_failure (by simp [reachesDevice, hmissing]),
        if_neg (Nat.not_le.mpr hshort), shortage, if_neg hmissing, hrest]
  · have henough : length ≤ (supply kernel).length := by
      rw [supply, List.length_append]
      omega
    rw [read_of_served hserved, if_pos henough, supply, List.take_append_of_le_length hserved]

theorem readDevice_calls (length : Nat) (kernel : Kernel) :
    ∃ made, (readDevice length kernel).2.calls = kernel.calls ++ made ∧
      made.flatMap KernelCall.bytes = (readDevice length kernel).1.delivered := by
  rw [readDevice]
  cases hfailure : (openDevice kernel.opens).failure with
  | some errno => exact ⟨_, rfl, openDevice_calls kernel.opens⟩
  | none =>
      refine ⟨(openDevice kernel.opens).calls ++ (drain kernel.reads length).calls ++ [.closeDevice],
        by simp only [List.append_assoc], ?_⟩
      rw [List.flatMap_append, List.flatMap_append, openDevice_calls, drain_calls]
      exact List.append_nil _

/-- The calls of a request deliver its bytes, each of them once and in order. -/
theorem read_calls (length : Nat) (kernel : Kernel) :
    ∃ made, (read length kernel).2.calls = kernel.calls ++ made ∧
      made.flatMap KernelCall.bytes = (read length kernel).1.delivered := by
  have hgather := gather_calls kernel.entropy length
  rcases Nat.lt_or_ge (flow fails kernel.entropy).length length with hshort | hserved
  · rw [gather_delivered, List.take_of_length_le (Nat.le_of_lt hshort)] at hgather
    rw [read_of_short hshort]
    by_cases hmissing : entropyErrno kernel.entropy = Errno.unimplemented
    · obtain ⟨made, hcalls, hmade⟩ :=
        readDevice_calls (length - (flow fails kernel.entropy).length) (afterGather length kernel)
      rw [if_pos hmissing]
      refine ⟨(gather kernel.entropy length).calls ++ made, ?_, ?_⟩
      · rw [← List.append_assoc]
        exact hcalls
      · rw [List.flatMap_append, hgather, hmade]
    · rw [if_neg hmissing]
      exact ⟨_, rfl, hgather⟩
  · rw [gather_delivered] at hgather
    rw [read_of_served hserved]
    exact ⟨_, rfl, hgather⟩

end Read

section Genuine

/-- The kernel tells errors by their numbers, and those are positive. -/
structure Genuine (kernel : Kernel) : Prop where
  entropy : ∀ answer ∈ kernel.entropy, ∀ errno ∈ answer.errno?, 0 < errno
  opens : ∀ answer ∈ kernel.opens, ∀ errno ∈ answer.errno?, 0 < errno
  reads : ∀ answer ∈ kernel.reads, ∀ errno ∈ answer.errno?, 0 < errno

/-- The number behind a stop is one that the kernel tells. -/
theorem errno_of_stop {ends : KernelAnswer Bytes → Bool} {answers : List (KernelAnswer Bytes)}
    {errno : Errno} (hstop : (stop ends answers).bind errno? = some errno) :
    ∃ answer ∈ answers, errno ∈ answer.errno? := by
  obtain ⟨answer, hfound, herror⟩ := Option.bind_eq_some_iff.mp hstop
  exact ⟨answer, (List.mem_filter.mp (List.mem_of_find?_eq_some hfound)).1, herror⟩

section Positive

variable {kernel : Kernel} (hgenuine : Genuine kernel) {errno : Errno}

include hgenuine

theorem Genuine.entropyErrno_pos : 0 < entropyErrno kernel.entropy := by
  rw [entropyErrno]
  cases hstop : (stop fails kernel.entropy).bind errno? with
  | none => decide
  | some errno =>
      obtain ⟨answer, hmem, herror⟩ := errno_of_stop hstop
      exact hgenuine.entropy answer hmem errno herror

theorem Genuine.openErrno_pos (hrefused : openErrno kernel.opens = some errno) : 0 < errno := by
  obtain ⟨answer, hfirst, herror⟩ := Option.bind_eq_some_iff.mp hrefused
  have hmem := (List.mem_filter.mp (List.mem_of_head? hfirst)).1
  exact hgenuine.opens answer hmem errno herror

theorem Genuine.deviceErrno_pos (hstop : (stop isDry kernel.reads).bind errno? = some errno) :
    0 < errno := by
  obtain ⟨answer, hmem, herror⟩ := errno_of_stop hstop
  exact hgenuine.reads answer hmem errno herror

/-- A shortage has a reason. -/
theorem Genuine.shortage_ne_ok : shortage kernel ≠ Status.ok := by
  rw [shortage]
  split
  · cases hopen : openErrno kernel.opens with
    | some errno => exact Status.ofErrno_ne_ok (hgenuine.openErrno_pos hopen) _
    | none =>
        rw [deviceEnding]
        cases hstop : (stop isDry kernel.reads).bind errno? with
        | some errno => exact Status.ofErrno_ne_ok (hgenuine.deviceErrno_pos hstop) _
        | none =>
            have hcode : Code.dataLoss ≠ Code.ok := by decide
            simp [Status.dataLoss, Status.ofCode, hcode]
  · exact Status.ofErrno_ne_ok hgenuine.entropyErrno_pos _

end Positive

end Genuine

end SystemRandom

namespace RandomSource

open SystemRandom

/-- The kernel as a source writes what it delivers to the front of the buffer. -/
theorem system_read_some (buffer : Bytes) (length : Nat) (host : Host) :
    system.read (some buffer) length host =
      (.ok ((SystemRandom.read length host.kernel).1.status,
          buffer.overwrite (SystemRandom.read length host.kernel).1.delivered),
        { host with kernel := (SystemRandom.read length host.kernel).2 }) := by
  by_cases hlength : length = 0
  · rw [hlength, read_zero, RandomSource.read, if_pos rfl, Bytes.overwrite_nil]
    rfl
  · rw [RandomSource.read, if_neg hlength]
    rfl

/-- The kernel as a source needs no buffer for nothing. -/
theorem system_read {buffer : Option Bytes} {length : Nat}
    (hroom : length ≤ (buffer.getD []).length) (host : Host) :
    system.read buffer length host =
      (.ok ((SystemRandom.read length host.kernel).1.status,
          (buffer.getD []).overwrite (SystemRandom.read length host.kernel).1.delivered),
        { host with kernel := (SystemRandom.read length host.kernel).2 }) := by
  cases buffer with
  | none =>
      have hlength : length = 0 := Nat.le_zero.mp hroom
      subst hlength
      rw [read_zero]
      rfl
  | some buffer => exact system_read_some buffer length host

/-- A request to the kernel for `length` bytes returns, whatever the kernel answers.  It
succeeds exactly if the kernel supplies that many bytes before it fails for good, and
then the buffer starts with these bytes; otherwise the status tells why there are no
more.  The bytes are those that the calls of the request have delivered, in order, and
nothing behind the place for them is written. -/
theorem randomness_assembled {buffer : Option Bytes} {length : Nat}
    (hroom : length ≤ (buffer.getD []).length) {host : Host} (hgenuine : Genuine host.kernel) :
    ∃ status filled later,
      system.read buffer length host = (.ok (status, filled), later) ∧
      (status = Status.ok ↔ length ≤ (supply host.kernel).length) ∧
      (status = Status.ok → filled.take length = (supply host.kernel).take length) ∧
      (status ≠ Status.ok → status = shortage host.kernel) ∧
      filled.length = (buffer.getD []).length ∧
      filled.drop length = (buffer.getD []).drop length ∧
      ∃ made, later.kernel.calls = host.kernel.calls ++ made ∧
        made.flatMap KernelCall.bytes = (supply host.kernel).take length := by
  have hread := system_read hroom host
  obtain ⟨made, hcalls, hmade⟩ := read_calls length host.kernel
  rw [read_outcome] at hread hmade
  have hshort : ((supply host.kernel).take length).length ≤ length := List.length_take_le _ _
  have hstatus : (if length ≤ (supply host.kernel).length then Status.ok
      else shortage host.kernel) = Status.ok ↔ length ≤ (supply host.kernel).length := by
    simp [hgenuine.shortage_ne_ok]
  refine ⟨_, _, _, hread, hstatus, ?_, ?_, Bytes.length_overwrite _ _,
    Bytes.drop_overwrite hshort hroom, made, hcalls, hmade⟩
  · intro hok
    have hwhole := List.length_take_of_le (hstatus.mp hok)
    have hfront := Bytes.take_overwrite (Nat.le_trans hshort hroom)
    rw [hwhole] at hfront
    exact hfront
  · intro hrefused
    exact if_neg fun henough => hrefused (hstatus.mpr henough)

/-- A kernel that is interrupted at each of its calls, has its random call taken away
between two bytes and the third, and whose device ends behind the sixth. -/
def troubled : Host :=
  Host.fresh (Log.fresh default)
    ⟨[.error Errno.interrupted, .ok [1, 2], .ok [], .error Errno.unimplemented, .ok [9]],
      [.error Errno.interrupted, .ok ()],
      [.ok [3], .error Errno.interrupted, .ok [4, 5, 6], .ok [], .ok [9]], [], []⟩
    (Environment.ofIdentity default)

theorem troubled_assembled :
    let buffer : Option Bytes := some (List.replicate 7 0xee)
    Genuine troubled.kernel ∧
      (∃ later, system.read buffer 5 troubled =
        (.ok (Status.ok, [1, 2, 3, 4, 5, 0xee, 0xee]), later)) ∧
      ∃ filled later, system.read buffer 7 troubled =
        (.ok (Status.dataLoss (ascii "short read from /dev/urandom"), filled), later) := by
  intro buffer
  have hgenuine : Genuine troubled.kernel := ⟨by decide, by decide, by decide⟩
  have hsupply : supply troubled.kernel = [1, 2, 3, 4, 5, 6] := by decide
  have hfive : 5 ≤ (buffer.getD []).length := by decide
  have hseven : 7 ≤ (buffer.getD []).length := by decide
  refine ⟨hgenuine, ?_, ?_⟩
  · obtain ⟨status, filled, later, hread, hok, hfront, -, -, hbehind, -⟩ :=
      randomness_assembled hfive hgenuine
    rw [hsupply] at hok hfront
    have hserved : status = Status.ok := hok.mpr (by decide)
    have hfilled : filled = [1, 2, 3, 4, 5, 0xee, 0xee] := by
      rw [← List.take_append_drop 5 filled, hfront hserved, hbehind]
      rfl
    rw [hserved, hfilled] at hread
    exact ⟨later, hread⟩
  · obtain ⟨status, filled, later, hread, hok, -, hrefused, -⟩ :=
      randomness_assembled hseven hgenuine
    rw [hsupply] at hok
    have hshort : status ≠ Status.ok := fun hserved => absurd (hok.mp hserved) (by decide)
    have hreason : shortage troubled.kernel =
      Status.dataLoss (ascii "short read from /dev/urandom") := by decide
    rw [hrefused hshort, hreason] at hread
    exact ⟨filled, later, hread⟩

end RandomSource

end TokenMint
