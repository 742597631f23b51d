/-!
Spans of time, counted in nanoseconds, and their text: the largest unit among seconds,
milliseconds, microseconds and nanoseconds that the span reaches, with the remainder as a
decimal fraction whose trailing zeros are dropped (`1.001s`, `1.5µs`, `0ns`).
-/

namespace Coordination

/-- A span of time in nanoseconds. -/
structure Duration where
  nanos : Nat
  deriving DecidableEq, Repr, Inhabited

namespace Duration

/-- A span of whole milliseconds. -/
def ofMillis (ms : Nat) : Duration := ⟨ms * 1000000⟩

/-- A span of whole seconds and a part of a second in nanoseconds. -/
def ofSecs (secs subsec : Nat) : Duration := ⟨secs * 1000000000 + subsec⟩

/-- The whole milliseconds of a span. -/
def millis (d : Duration) : Nat := d.nanos / 1000000

/-- Decimal digits of a number. -/
def decimal (n : Nat) : String := toString n

/-- The fraction `frac / 10^width` as digits after the point, trailing zeros dropped. -/
def fraction (width frac : Nat) : String :=
  let ds := (decimal frac).toList
  let padded := List.replicate (width - ds.length) '0' ++ ds
  String.ofList (padded.reverse.dropWhile (· = '0')).reverse

/-- A whole part, a fraction of `width` digits and a unit, as in `1.5µs`. -/
def withUnit (whole frac width : Nat) (unit : String) : String :=
  let f := fraction width frac
  decimal whole ++ (if f.isEmpty then "" else "." ++ f) ++ unit

/-- The text of a span in its largest reached unit. -/
def text (d : Duration) : String :=
  let n := d.nanos
  if 1000000000 ≤ n then withUnit (n / 1000000000) (n % 1000000000) 9 "s"
  else if 1000000 ≤ n then withUnit (n / 1000000) (n % 1000000) 6 "ms"
  else if 1000 ≤ n then withUnit (n / 1000) (n % 1000) 3 "µs"
  else withUnit n 0 0 "ns"

example : (ofMillis 1001).text = "1.001s" := by decide +kernel
example : (Duration.mk 0).text = "0ns" := by decide +kernel
example : (Duration.mk 1500).text = "1.5µs" := by decide +kernel
example : (Duration.mk 999999999).text = "999.999999ms" := by decide +kernel

end Duration

end Coordination
