import MiddleEnd.Text.Basic

/-!
Points in time and their calendar texts.
-/

namespace MiddleEnd.Trace

/-- Nanoseconds since the beginning of 1970, universal time. -/
abbrev Instant := Int

namespace Instant

/-- The beginning of the year one stands for a time that was never set. -/
def unset : Instant := -62135596800000000000

/-- From one instant to another, within what 63 bits can tell. -/
def since (later earlier : Instant) : Int :=
  max (-0x8000000000000000) (min 0x7fffffffffffffff (later - earlier))

/-- Years are counted from March, so that the leap day is the last of its year. -/
def ofDays (days : Int) : Int × Nat × Nat :=
  let shifted := days + 719468
  let era := shifted.fdiv 146097
  let ofEra := (shifted.fmod 146097).toNat
  let year := (ofEra - ofEra / 1460 + ofEra / 36524 - ofEra / 146096) / 365
  let ofYear := ofEra - (365 * year + year / 4 - year / 100)
  let month := (5 * ofYear + 2) / 153
  let day := ofYear - (153 * month + 2) / 5 + 1
  let calendarMonth := if month < 10 then month + 3 else month - 9
  (era * 400 + year + (if calendarMonth ≤ 2 then 1 else 0), calendarMonth, day)

def padded (width n : Nat) : Text :=
  let digits := Text.ofNat n
  List.replicate (width - digits.length) 48 ++ digits

def fraction (nanos : Nat) : Text :=
  if nanos = 0 then []
  else 46 :: ((padded 9 nanos).reverse.dropWhile (· == 48)).reverse

def print (t : Instant) : Text :=
  let seconds := t.fdiv 1000000000
  let nanos := (t.fmod 1000000000).toNat
  let (year, month, day) := ofDays (seconds.fdiv 86400)
  let ofDay := (seconds.fmod 86400).toNat
  .concat
    [padded 4 year.toNat, "-", padded 2 month, "-", padded 2 day, "T", padded 2 (ofDay / 3600), ":",
      padded 2 (ofDay / 60 % 60), ":", padded 2 (ofDay % 60), fraction nanos, "Z"]

end Instant

end MiddleEnd.Trace
