import TokenMint.Host

/-!
# Reading clocks

Clocks read milliseconds since the start of 1970.  Nothing says that readings
do not go back.
-/

namespace TokenMint.Clock

/-- The milliseconds of a point in time.  Every point before 1970 counts as its
start. -/
def millis (time : Timespec) : UInt64 :=
  if time.seconds < 0 then 0
  else time.seconds.toInt64.toUInt64 * 1000 + time.nanos.toInt64.toUInt64 / 1000000

/-- What the kernel's answer means to the reader of a clock. -/
def ofKernelAnswer : KernelAnswer Timespec → Except Fault UInt64
  | .ok time => .ok (millis time)
  | .error errno => .error (.system errno (ascii "clock_gettime(2)"))

def isValid (clock : Clock) : Bool :=
  clock ≠ .empty

/-- The fault of using a clock that is none. -/
def emptyFault : Fault :=
  .misuse (ascii "token::Clock is empty")

/-- What a clock reads, and the host afterwards. -/
def read (clock : Clock) (host : Host) : Except Fault UInt64 × Host :=
  match clock with
  | .empty => (.error emptyFault, host)
  | .kernel =>
      let (answer, after) := host.kernel.readClock
      (ofKernelAnswer answer, { host with kernel := after })
  | .device index =>
      match host.clocks[index]? with
      | none => (.error emptyFault, host)
      | some found =>
          let (answer, after) := found.read
          (answer, { host with clocks := host.clocks.set index after })

/-- The time on a clock. -/
def now (clock : Clock) : Hosted UInt64 := do
  Effect.ofExcept (← Effect.ofState clock.read)

/-- Raise a fault unless there is a clock. -/
def assertValid {σ : Type} (clock : Clock) : Effect σ Unit :=
  if clock.isValid then pure () else Effect.raise emptyFault

/-- The clock of the process: the kernel's unless another has been chosen. -/
def ofHost (host : Host) : Clock :=
  if host.systemClock.isValid then host.systemClock else .kernel

/-- Choose the clock of the process.  Choosing none goes back to the kernel. -/
def choose (clock : Clock) (host : Host) : Host :=
  { host with systemClock := clock }

end TokenMint.Clock
