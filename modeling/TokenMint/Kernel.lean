import TokenMint.Status.Errno

/-!
# The kernel

The kernel answers the calls of the process from scripts, one script for each
kind of call.  Calls for random bytes are written down with their answers.
-/

namespace TokenMint

/-- A point in time, in seconds since the start of 1970 and nanoseconds. -/
structure Timespec where
  seconds : Int
  nanos : Int
deriving DecidableEq, Repr, Inhabited

/-- What the kernel answers: a value or an error number. -/
abbrev KernelAnswer (α : Type) := Except Errno α

/-- A call to the kernel for random bytes, with the length asked for and the
answer. -/
inductive KernelCall where
  | getrandom (length : Nat) (answer : KernelAnswer Bytes)
  | openDevice (answer : KernelAnswer Unit)
  | readDevice (length : Nat) (answer : KernelAnswer Bytes)
  | closeDevice

/-- The answers that the kernel has left, and the calls made so far. -/
structure Kernel where
  entropy : List (KernelAnswer Bytes)
  opens : List (KernelAnswer Unit)
  reads : List (KernelAnswer Bytes)
  clock : List (KernelAnswer Timespec)
  calls : List KernelCall

namespace Kernel

/-- The next reading of the wall clock.  The last answer repeats for ever; a
clock without answers stands at the start of 1970. -/
def readClock (kernel : Kernel) : KernelAnswer Timespec × Kernel :=
  match kernel.clock with
  | [] => (.ok ⟨0, 0⟩, kernel)
  | [last] => (last, kernel)
  | next :: rest => (next, { kernel with clock := rest })

end Kernel

end TokenMint
