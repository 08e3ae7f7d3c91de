import TokenMint.Proofs.Decimal
import TokenMint.Status.Basic

/-!
# The text of a status

The text of a status starts with the name of its code, which has no parenthesis in it, and
the number of the code between parentheses, which has nothing but figures in it.  So the
code is found again in front of any message, also one that looks like a status itself, and
the text of success is the text of nothing else.
-/

namespace TokenMint

/-- A text can be cut in one way only at the first place of a byte. -/
theorem Bytes.cut_unique {mark : UInt8} {front other back rest : Bytes}
    (hfront : mark ∉ front) (hother : mark ∉ other)
    (heq : front ++ mark :: back = other ++ mark :: rest) : front = other ∧ back = rest := by
  induction front generalizing other with
  | nil =>
      cases other with
      | nil => exact ⟨rfl, List.tail_eq_of_cons_eq heq⟩
      | cons byte other =>
          have hmark : mark = byte := List.head_eq_of_cons_eq heq
          exact absurd (hmark ▸ List.mem_cons_self) hother
  | cons byte front ih =>
      cases other with
      | nil =>
          have hmark : byte = mark := List.head_eq_of_cons_eq heq
          exact absurd (hmark ▸ List.mem_cons_self) hfront
      | cons byte' other =>
          rw [List.cons_append, List.cons_append, List.cons.injEq] at heq
          have hrest := ih (mt (List.mem_cons_of_mem byte) hfront)
            (mt (List.mem_cons_of_mem byte') hother) heq.2
          exact ⟨by rw [heq.1, hrest.1], hrest.2⟩

theorem Code.paren_notMem_name (code : Code) : '('.toUInt8 ∉ code.name := by
  rw [Code.name]
  split
  all_goals decide

theorem Decimal.paren_notMem_ofUInt64 (number : UInt64) : ')'.toUInt8 ∉ ofUInt64 number := by
  intro hparen
  obtain ⟨-, hnumeral, -, -⟩ := ofUInt64_spec number
  exact absurd (hnumeral.figures _ hparen) (by decide)

/-- Every classified error number stands for a failure. -/
theorem Errno.classify_ne_ok {errno : Errno} {name : Bytes} {code : Code}
    (hclassify : errno.classify = some (name, code)) : code ≠ Code.ok := by
  unfold classify at hclassify
  split at hclassify <;> cases hclassify <;> decide

theorem Errno.code_ne_ok (errno : Errno) : errno.code ≠ Code.ok := by
  rw [Errno.code]
  cases hclassify : errno.classify with
  | none => decide
  | some entry => exact Errno.classify_ne_ok hclassify

namespace Status

/-- What stands behind the code in the text of a status. -/
def details (status : Status) : Bytes :=
  (if status.message = [] then [] else ascii ": " ++ status.message) ++ errnoRemark status.errno

theorem render_eq (status : Status) :
    status.render = status.code.name ++ '('.toUInt8 ::
      (Decimal.ofUInt64 status.code.value.toUInt64 ++ ')'.toUInt8 :: status.details) := by
  have hopen : ascii "(" = ['('.toUInt8] := rfl
  have hclose : ascii ")" = [')'.toUInt8] := rfl
  simp [render, details, Piece.render, hopen, hclose]

/-- Whatever their messages say, two statuses with one text have one code. -/
theorem code_eq_of_render_eq {a b : Status} (heq : a.render = b.render) : a.code = b.code := by
  rw [render_eq, render_eq] at heq
  obtain ⟨-, hbehind⟩ :=
    Bytes.cut_unique a.code.paren_notMem_name b.code.paren_notMem_name heq
  obtain ⟨hnumeral, -⟩ := Bytes.cut_unique (Decimal.paren_notMem_ofUInt64 _)
    (Decimal.paren_notMem_ofUInt64 _) hbehind
  have hwide : a.code.value.toUInt64 = b.code.value.toUInt64 := Decimal.ofUInt64_inj hnumeral
  have hvalue : a.code.value = b.code.value := by
    rw [← UInt8.toUInt8_toUInt64 a.code.value, hwide, UInt8.toUInt8_toUInt64]
  exact congrArg Code.mk hvalue

theorem render_ok : ok.render = ascii "OK(0)" := by
  decide

theorem isOk_iff_render (status : Status) :
    status.isOk = true ↔ status.render = ascii "OK(0)" := by
  constructor
  · intro hok
    cases status with
    | ok => exact render_ok
    | failed => contradiction
  · intro hrender
    rw [isOk_iff_code]
    exact code_eq_of_render_eq (hrender.trans render_ok.symm)

/-- Success carries nothing. -/
theorem nothing_of_isOk {status : Status} (hok : status.isOk = true) :
    status.message = [] ∧ status.errno = 0 := by
  cases status with
  | ok => exact ⟨rfl, rfl⟩
  | failed => contradiction

section Making

variable {code : Code} {errno : Errno} (message : Bytes)

theorem code_ofCode (code : Code) (errno : Errno) : (ofCode code message errno).code = code := by
  rw [ofCode]
  split
  case isTrue hok => exact hok.symm
  case isFalse => rfl

theorem isOk_ofCode_iff (code : Code) (errno : Errno) :
    (ofCode code message errno).isOk = true ↔ code = Code.ok := by
  rw [isOk_iff_code, code_ofCode]

theorem ofCode_of_ne (hcode : code ≠ Code.ok) (errno : Errno) :
    ofCode code message errno = failed code message errno hcode :=
  dif_neg hcode

theorem isOk_ofErrno_iff : (ofErrno errno message).isOk = true ↔ errno = 0 := by
  rw [ofErrno]
  split
  case isTrue hzero => exact iff_of_true rfl hzero
  case isFalse hfailed =>
    rw [isOk_ofCode_iff]
    exact iff_of_false errno.code_ne_ok hfailed

theorem ofErrno_ne_ok (hpos : 0 < errno) (what : Bytes) : ofErrno errno what ≠ ok := by
  intro hok
  have hzero : errno = 0 := by
    rw [← isOk_ofErrno_iff what, hok]
    rfl
  exact absurd hzero (Int.ne_of_gt hpos)

/-- What makes a status of a code of its own from a message, with these codes. -/
def factories : List (Code × (Bytes → Status)) :=
  [(Code.internal, internal), (Code.failedPrecondition, failedPrecondition),
    (Code.invalidArgument, invalidArgument), (Code.outOfRange, outOfRange),
    (Code.unavailable, unavailable), (Code.dataLoss, dataLoss)]

/-- A factory passes its code on, which is never that of success. -/
theorem factory_eq {factory : Code × (Bytes → Status)} (hfactory : factory ∈ factories) :
    factory.1 ≠ Code.ok ∧ factory.2 message = ofCode factory.1 message noErrno := by
  simp only [factories, List.mem_cons, List.not_mem_nil, or_false] at hfactory
  rcases hfactory with rfl | rfl | rfl | rfl | rfl | rfl
  all_goals exact ⟨by decide, rfl⟩

end Making

/-- Success and failure are never taken for one another.  A status is a success exactly if
its code is that of success, and exactly if it reads `OK(0)`, and it carries nothing then.
A code makes a status of this code, which is a success for no other code than that of
success and keeps message and number if it is a failure; so does each factory with its own
code; and an error number makes a success exactly if it is zero.  Two statuses with one
text have one code, whatever their messages and numbers are. -/
theorem success_and_failure_distinct :
    (∀ status : Status,
      (status.isOk = true ↔ status.code = Code.ok) ∧
      (status.isOk = true ↔ status.render = ascii "OK(0)") ∧
      (status.isOk = true → status.message = [] ∧ status.errno = 0)) ∧
    (∀ (code : Code) (message : Bytes) (errno : Errno),
      (ofCode code message errno).code = code ∧
      ((ofCode code message errno).isOk = true ↔ code = Code.ok) ∧
      (code ≠ Code.ok → (ofCode code message errno).message = message ∧
        (ofCode code message errno).errno = errno)) ∧
    (∀ factory ∈ factories, ∀ message : Bytes,
      (factory.2 message).isOk = false ∧ (factory.2 message).code = factory.1 ∧
      (factory.2 message).message = message ∧ (factory.2 message).errno = noErrno) ∧
    (∀ (errno : Errno) (message : Bytes), (ofErrno errno message).isOk = true ↔ errno = 0) ∧
    ∀ a b : Status, a.render = b.render → a.code = b.code := by
  refine ⟨?_, ?_, ?_, ?_, fun a b => code_eq_of_render_eq⟩
  · intro status
    exact ⟨status.isOk_iff_code, status.isOk_iff_render, nothing_of_isOk⟩
  · intro code message errno
    refine ⟨code_ofCode message code errno, isOk_ofCode_iff message code errno, ?_⟩
    intro hcode
    rw [ofCode_of_ne message hcode]
    exact ⟨rfl, rfl⟩
  · intro factory hfactory message
    obtain ⟨hcode, hmade⟩ := factory_eq message hfactory
    rw [hmade, ofCode_of_ne message hcode]
    exact ⟨rfl, rfl, rfl, rfl⟩
  · intro errno message
    exact isOk_ofErrno_iff message

/-- A message that ends like the remark on a system call makes another status of the same
text, with the same code; a code without a name is told from success by its number alone. -/
theorem lookalike_keeps_code :
    let refused := ofErrno 1 (ascii "OK(0)")
    let lookalike := ofCode Code.permissionDenied
      (ascii "OK(0) errno:[EPERM Operation not permitted]") noErrno
    let unnamed := ofCode ⟨3⟩ (ascii "OK(0)") 0
    let success := ofCode Code.ok (ascii "dropped") 5
    (refused ≠ lookalike ∧ refused.render = lookalike.render ∧ refused.code = lookalike.code) ∧
      (Code.mk 3 ≠ Code.ok ∧ unnamed.message = ascii "OK(0)" ∧ unnamed.errno = 0) ∧
      (success.isOk = true ∧ success.message = [] ∧ success.errno = 0) ∧
      (Code.dataLoss, dataLoss) ∈ factories ∧ (dataLoss (ascii "short")).isOk = false := by
  intro refused lookalike unnamed success
  obtain ⟨hstatus, hcode, hfactory, -, hcodes⟩ := success_and_failure_distinct
  have hrender : refused.render = lookalike.render := by decide
  have hunnamed : Code.mk 3 ≠ Code.ok := by decide
  have hsuccess : success.isOk = true := by decide
  have hmember : (Code.dataLoss, dataLoss) ∈ factories := by simp [factories]
  exact ⟨⟨by decide, hrender, hcodes refused lookalike hrender⟩,
    ⟨hunnamed, (hcode ⟨3⟩ (ascii "OK(0)") 0).2.2 hunnamed⟩,
    ⟨hsuccess, (hstatus success).2.2 hsuccess⟩,
    hmember, (hfactory _ hmember (ascii "short")).1⟩

end Status

end TokenMint
