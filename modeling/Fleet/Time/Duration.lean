import Fleet.Number.Notation

/-!
# Durations

A span of time in nanoseconds, bounded like a 64-bit count of seconds with nanoseconds. Sums that
leave the range are visible: `Duration.add?` has no result then.
-/

namespace Fleet

/-- The number of nanoseconds in a second. -/
def nanosPerSecond : Nat := 1000000000

/-- The number of nanoseconds in a millisecond. -/
def nanosPerMilli : Nat := 1000000

/-- **A span of time.** The longest one is just short of `2^64` seconds. -/
structure Duration where
  nanos : Nat
  bounded : nanos < 2 ^ 64 * nanosPerSecond
deriving DecidableEq

namespace Duration

/-- The longest duration. -/
def longest : Duration := ⟨2 ^ 64 * nanosPerSecond - 1, by decide⟩

/-- The duration of `n` nanoseconds, or the longest one if there is none. -/
def ofNanos (n : Nat) : Duration :=
  if h : n < 2 ^ 64 * nanosPerSecond then ⟨n, h⟩ else longest

/-- The duration of `n` milliseconds. -/
def ofMillis (n : Nat) : Duration := ofNanos (n * nanosPerMilli)

/-- The duration of `n` seconds. -/
def ofSeconds (n : Nat) : Duration := ofNanos (n * nanosPerSecond)

/-- No time at all. -/
def zero : Duration := ⟨0, by decide⟩

instance : Inhabited Duration := ⟨zero⟩

/-- The whole milliseconds in a duration. -/
def millis (d : Duration) : Nat := d.nanos / nanosPerMilli

/-- The duration in seconds, as the float nearest to its whole seconds plus the float nearest to
the rest. -/
def seconds (d : Duration) : Float :=
  Float.ofNat (d.nanos / nanosPerSecond) +
    Float.ofNat (d.nanos % nanosPerSecond) / Float.ofNat nanosPerSecond

/-- The sum of two durations, if it is one. -/
def add? (a b : Duration) : Option Duration :=
  if h : a.nanos + b.nanos < 2 ^ 64 * nanosPerSecond then some ⟨a.nanos + b.nanos, h⟩ else none

/-- There is no sum where it would be longer than any duration. -/
theorem add?_eq_none_iff {a b : Duration} :
    a.add? b = none ↔ 2 ^ 64 * nanosPerSecond ≤ a.nanos + b.nanos := by
  rw [add?]
  split
  · rename_i hfits
    exact ⟨nofun, fun hover => absurd hfits (Nat.not_lt_of_le hover)⟩
  · rename_i hover
    exact ⟨fun _ => Nat.le_of_not_lt hover, fun _ => rfl⟩

theorem nanos_of_add? {a b c : Duration} (h : a.add? b = some c) :
    c.nanos = a.nanos + b.nanos := by
  unfold add? at h
  split at h
  · exact (congrArg nanos (Option.some.inj h)).symm
  · cases h

/-- A decimal fraction of a unit without its trailing zeros: `rest` out of `10^places`. -/
def fraction (places rest : Nat) : String :=
  let ds := Decimal.digits rest
  let padded := List.replicate (places - ds.length) 0 ++ ds
  let kept := (padded.reverse.dropWhile (· = 0)).reverse
  if kept.isEmpty then "" else "." ++ Notation.ofDigits kept

/-- The text of a duration: its largest unit with a nonzero whole part, with decimals as
needed. -/
def text (d : Duration) : String :=
  let (unit, places, name) :=
    if nanosPerSecond ≤ d.nanos then (nanosPerSecond, 9, "s")
    else if nanosPerMilli ≤ d.nanos then (nanosPerMilli, 6, "ms")
    else if 1000 ≤ d.nanos then (1000, 3, "µs")
    else (1, 0, "ns")
  Notation.ofNat (d.nanos / unit) ++ fraction places (d.nanos % unit) ++ name

end Duration

end Fleet
