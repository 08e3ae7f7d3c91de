import TokenMint.Effect

/-!
# Clock devices

Clocks for tests.  One is set by hand; the other gives a fixed series of
readings and faults, the last of which repeats for ever.
-/

namespace TokenMint

/-- A clock that tests control. -/
inductive ClockDevice where
  | manual (now : UInt64)
  | series (answers : List (Except Fault UInt64))

namespace ClockDevice

/-- The time of a manual clock that nobody has set: a Monday in January 2006. -/
def defaultTime : UInt64 := 1136239445123

/-- The clock that gives these readings in turn. -/
def ofReadings (readings : List UInt64) : ClockDevice :=
  .series (readings.map .ok)

/-- Read a clock.  A series without answers reads zero. -/
def read : ClockDevice → Except Fault UInt64 × ClockDevice
  | manual now => (.ok now, manual now)
  | series [] => (.ok 0, series [])
  | series [last] => (last, series [last])
  | series (next :: rest) => (next, series rest)

/-- Move a manual clock to `time`, which may be in its past. -/
def set (time : UInt64) : ClockDevice → ClockDevice
  | manual _ => manual time
  | other => other

/-- Move a manual clock `delta` milliseconds on, modulo 2^64. -/
def advance (delta : UInt64) : ClockDevice → ClockDevice
  | manual now => manual (now + delta)
  | other => other

end ClockDevice

end TokenMint
