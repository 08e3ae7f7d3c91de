import TokenMint.Kernel
import TokenMint.Status.Basic

/-!
# System randomness

Random bytes come from the kernel's own call.  A kernel without that call is
read through its random device instead, and bytes that were delivered before
this came out are kept.  Interrupted calls are made again, and short answers
are asked on for what is missing.
-/

namespace TokenMint.SystemRandom

/-- How a series of requests for bytes ended. -/
inductive Ending where
  | complete
  | failed (errno : Errno)
  | endOfFile
deriving DecidableEq, Repr

/-- A series of requests for bytes: what was delivered, the calls that were
made, the answers left over, and how it ended. -/
structure Transfer where
  delivered : Bytes
  calls : List KernelCall
  rest : List (KernelAnswer Bytes)
  ending : Ending

namespace Transfer

/-- Put a call that delivered `data` in front. -/
def after (call : KernelCall) (data : Bytes) (later : Transfer) : Transfer :=
  { later with delivered := data ++ later.delivered, calls := call :: later.calls }

/-- The transfer of one call, which delivers nothing and ends it. -/
def endingWith (call : KernelCall) (rest : List (KernelAnswer Bytes)) (ending : Ending) :
    Transfer :=
  ⟨[], [call], rest, ending⟩

end Transfer

open Transfer (after endingWith)

/-- Ask the random call until `length` bytes are delivered.  Without an answer
left, the device behind it has failed. -/
def gather : List (KernelAnswer Bytes) → Nat → Transfer
  | answers, 0 => ⟨[], [], answers, .complete⟩
  | [], length + 1 =>
      endingWith (.getrandom (length + 1) (.error Errno.ioFailure)) [] (.failed Errno.ioFailure)
  | .error errno :: rest, length + 1 =>
      let call := .getrandom (length + 1) (.error errno)
      if errno = Errno.interrupted then after call [] (gather rest (length + 1))
      else endingWith call rest (.failed errno)
  | .ok data :: rest, length + 1 =>
      let data := data.take (length + 1)
      after (.getrandom (length + 1) (.ok data)) data (gather rest (length + 1 - data.length))

/-- Read the random device until `length` bytes are delivered.  An answer of no
bytes is the end of the device, and so is the end of the answers. -/
def drain : List (KernelAnswer Bytes) → Nat → Transfer
  | answers, 0 => ⟨[], [], answers, .complete⟩
  | [], length + 1 => endingWith (.readDevice (length + 1) (.ok [])) [] .endOfFile
  | .error errno :: rest, length + 1 =>
      let call := .readDevice (length + 1) (.error errno)
      if errno = Errno.interrupted then after call [] (drain rest (length + 1))
      else endingWith call rest (.failed errno)
  | .ok data :: rest, length + 1 =>
      let data := data.take (length + 1)
      let call := .readDevice (length + 1) (.ok data)
      if data = [] then endingWith call rest .endOfFile
      else after call data (drain rest (length + 1 - data.length))

/-- A series of attempts to open the random device: the calls that were made,
the answers left over, and the error that it ended with, if it did. -/
structure Opening where
  calls : List KernelCall
  rest : List (KernelAnswer Unit)
  failure : Option Errno

/-- Try to open the random device until it is open or an error other than an
interruption comes.  Without an answer left, it opens. -/
def openDevice : List (KernelAnswer Unit) → Opening
  | [] => ⟨[.openDevice (.ok ())], [], none⟩
  | .error errno :: rest =>
      let call := .openDevice (.error errno)
      if errno = Errno.interrupted then
        let later := openDevice rest
        { later with calls := call :: later.calls }
      else ⟨[call], rest, some errno⟩
  | .ok () :: rest => ⟨[.openDevice (.ok ())], rest, none⟩

/-- Where the random device is. -/
def devicePath : Bytes := ascii "/dev/urandom"

/-- The status of a series of reads from the random device. -/
def drainStatus : Ending → Status
  | .complete => Status.ok
  | .failed errno => Status.ofErrno errno (concat ["read(2) path=", .text devicePath])
  | .endOfFile => Status.dataLoss (concat ["short read from ", .text devicePath])

/-- The outcome of a request: its status, and the bytes delivered, which are
fewer than asked for if it failed. -/
structure Outcome where
  status : Status
  delivered : Bytes
deriving DecidableEq, Repr

/-- Take `length` bytes from the random device.  A device that was opened is
closed at the end, whatever the end is. -/
def readDevice (length : Nat) (kernel : Kernel) : Outcome × Kernel :=
  let opening := openDevice kernel.opens
  match opening.failure with
  | some errno =>
      (⟨Status.ofErrno errno (concat ["open(2) path=", .text devicePath]), []⟩,
        { kernel with opens := opening.rest, calls := kernel.calls ++ opening.calls })
  | none =>
      let transfer := drain kernel.reads length
      (⟨drainStatus transfer.ending, transfer.delivered⟩,
        { kernel with
          opens := opening.rest
          reads := transfer.rest
          calls := kernel.calls ++ opening.calls ++ transfer.calls ++ [.closeDevice] })

/-- Take `length` random bytes from the kernel. -/
def read (length : Nat) (kernel : Kernel) : Outcome × Kernel :=
  let transfer := gather kernel.entropy length
  let asked :=
    { kernel with entropy := transfer.rest, calls := kernel.calls ++ transfer.calls }
  match transfer.ending with
  | .failed errno =>
      if errno = Errno.unimplemented then
        let (outcome, after) := readDevice (length - transfer.delivered.length) asked
        (⟨outcome.status, transfer.delivered ++ outcome.delivered⟩, after)
      else (⟨Status.ofErrno errno (ascii "getrandom(2)"), transfer.delivered⟩, asked)
  | _ => (⟨Status.ok, transfer.delivered⟩, asked)

end TokenMint.SystemRandom
