import TokenMint.Clock.Device
import TokenMint.Environment
import TokenMint.Kernel
import TokenMint.Log.Registry
import TokenMint.Random.Script

/-!
# The host

Everything around the library that it acts on or that answers it: the log, the
kernel, the environment, the clocks and the random sources of tests, and the
clock that the process has chosen for itself.
-/

namespace TokenMint

/-- A source of wall time: none, the kernel, or a clock of the host. -/
inductive Clock where
  | empty
  | kernel
  | device (index : Nat)
deriving DecidableEq, Repr, Inhabited

/-- What surrounds the library in a process. -/
structure Host where
  log : Log
  kernel : Kernel
  environment : Environment
  clocks : List ClockDevice
  sources : List ScriptedRandom
  systemClock : Clock

/-- A computation that acts on the host. -/
abbrev Hosted := Effect Host

namespace Host

/-- A host at its start: nothing is scripted but the kernel. -/
def fresh (log : Log) (kernel : Kernel) (environment : Environment) : Host :=
  ⟨log, kernel, environment, [], [], .empty⟩

/-- Run a computation that only logs. -/
def logging {α : Type} (act : Logging α) : Hosted α :=
  Effect.onPart log (fun host log => { host with log }) act

/-- Run a step of the kernel. -/
def kernelStep {α : Type} (step : Kernel → α × Kernel) : Hosted α :=
  Effect.ofState fun host =>
    let (answer, kernel) := step host.kernel
    (answer, { host with kernel })

/-- Run a step of the environment. -/
def environmentStep {α : Type} (step : Environment → α × Environment) : Hosted α :=
  Effect.ofState fun host =>
    let (answer, environment) := step host.environment
    (answer, { host with environment })

/-- Put one more clock on the host. -/
def addClock (host : Host) (device : ClockDevice) : Clock × Host :=
  (.device host.clocks.length, { host with clocks := host.clocks ++ [device] })

/-- Change a clock of the host; there is nothing to change about others. -/
def changeClock (host : Host) (clock : Clock) (change : ClockDevice → ClockDevice) : Host :=
  match clock with
  | .device index => { host with clocks := host.clocks.modify index change }
  | _ => host

end Host

end TokenMint
