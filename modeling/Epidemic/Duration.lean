import Epidemic.Json.Record

/-!
# Durations

A duration is a number of nanoseconds whose whole seconds fit 64 bits. Sums that would exceed the
range stay at its greatest duration.
-/

namespace Epidemic

/-- A span of time. -/
structure Duration where
  /-- Its length in nanoseconds. -/
  nanos : Nat
  /-- The whole seconds fit 64 bits. -/
  nanos_lt : nanos < Width.words64 * 1000000000

namespace Duration

/-- No time at all. -/
def zero : Duration := ⟨0, by decide⟩

/-- The greatest duration. -/
def greatest : Duration := ⟨Width.words64 * 1000000000 - 1, by decide⟩

/-- A number of nanoseconds, or the greatest duration if it is too long. -/
def clamp (nanos : Nat) : Duration :=
  if h : nanos < Width.words64 * 1000000000 then ⟨nanos, h⟩ else greatest

/-- A number of microseconds. -/
def ofMicros (micros : Nat) : Duration := clamp (1000 * micros)

/-- A number of microseconds, if it fits 64 bits and is not too long for a duration. -/
def ofMicros? (micros : Nat) : Option Duration :=
  if h : micros < Width.words64 ∧ 1000 * micros < Width.words64 * 1000000000 then
    some ⟨1000 * micros, h.2⟩
  else none

/-- A number of milliseconds. -/
def ofMillis (millis : Nat) : Duration := clamp (1000000 * millis)

/-- The sum of two durations. -/
def add (a b : Duration) : Duration := clamp (a.nanos + b.nanos)

/-- The whole microseconds. -/
def micros (d : Duration) : Nat := d.nanos / 1000

/-- The whole milliseconds. -/
def millis (d : Duration) : Nat := d.nanos / 1000000

/-- The milliseconds, a begun one being counted as a whole. -/
def millisCeil (d : Duration) : Nat := (d.nanos + 999999) / 1000000

/-- The whole seconds. -/
def seconds (d : Duration) : Nat := d.nanos / 1000000000

/-- The nanoseconds that remain after the whole seconds. -/
def subsecondNanos (d : Duration) : Nat := d.nanos % 1000000000

/-- The longer of two durations. -/
def max (a b : Duration) : Duration := if a.nanos < b.nanos then b else a

/-- The duration as seconds and nanoseconds. -/
def toJson (d : Duration) : Json.Value :=
  .object [("secs", .int d.seconds), ("nanos", .int d.subsecondNanos)]

/-- Reads seconds and nanoseconds; nanoseconds may make up whole seconds, as long as the range is
not left. No other members are allowed. -/
def ofDocument (document : Json.Document) : Except Json.Fault Duration := do
  let fields ← Json.Record.ofDocument { names := ["secs", "nanos"], allowsOthers := false } document
  let seconds ← Json.Record.required fields "secs" Json.Record.word
  let nanos ← Json.Record.required fields "nanos" (Json.Record.natural Width.words32)
  if h : 1000000000 * seconds + nanos < Width.words64 * 1000000000 then
    .ok ⟨1000000000 * seconds + nanos, h⟩
  else .error .mismatch

end Duration

end Epidemic
