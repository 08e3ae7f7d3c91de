import TokenMint.Status.Errno

/-!
# Statuses

A status says whether an operation succeeded and, if not, why.  Success carries
nothing.  A failure carries a code other than success, a message for people,
and the error number of the system call behind it, if there was one.
-/

namespace TokenMint

/-- The outcome of an operation. -/
inductive Status where
  | ok
  | failed (code : Code) (message : Bytes) (errno : Errno) (code_ne_ok : code ≠ Code.ok)
deriving DecidableEq, Repr, Inhabited

namespace Status

/-- The error number of a failure that no system call caused. -/
def noErrno : Errno := -1

/-- The status of a code.  The code of success drops message and number. -/
def ofCode (code : Code) (message : Bytes) (errno : Errno) : Status :=
  if hok : code = Code.ok then ok else failed code message errno hok

/-- The status of a failed system call; number zero is success. -/
def ofErrno (errno : Errno) (what : Bytes) : Status :=
  if errno = 0 then ok else ofCode errno.code what errno

def internal (message : Bytes) : Status :=
  ofCode Code.internal message noErrno

def failedPrecondition (message : Bytes) : Status :=
  ofCode Code.failedPrecondition message noErrno

def invalidArgument (message : Bytes) : Status :=
  ofCode Code.invalidArgument message noErrno

def outOfRange (message : Bytes) : Status :=
  ofCode Code.outOfRange message noErrno

def unavailable (message : Bytes) : Status :=
  ofCode Code.unavailable message noErrno

def dataLoss (message : Bytes) : Status :=
  ofCode Code.dataLoss message noErrno

def isOk : Status → Bool
  | ok => true
  | failed .. => false

def code : Status → Code
  | ok => Code.ok
  | failed code _ _ _ => code

def message : Status → Bytes
  | ok => []
  | failed _ message _ _ => message

def errno : Status → Errno
  | ok => 0
  | failed _ _ errno _ => errno

/-- The remark on the system call behind a failure; nothing for the numbers
that stand for no call. -/
def errnoRemark (errno : Errno) : Bytes :=
  if errno = 0 ∨ errno = noErrno then []
  else concat [" errno:[", .text errno.label, " ", .text errno.text, "]"]

/-- A status in one line: name and number of the code, then the message if
there is one, then the remark on the system call. -/
def render (status : Status) : Bytes :=
  concat [.text status.code.name, "(", .unsigned status.code.value.toUInt64, ")",
    .text (if status.message = [] then [] else ascii ": " ++ status.message),
    .text (errnoRemark status.errno)]

theorem isOk_iff_code (status : Status) : status.isOk = true ↔ status.code = Code.ok := by
  cases status with
  | ok => simp [isOk, code]
  | failed code message errno hne => simp [isOk, Status.code, hne]

end Status

end TokenMint
