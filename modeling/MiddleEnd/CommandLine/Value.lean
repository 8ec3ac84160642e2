import MiddleEnd.Decimal.Fixed
import MiddleEnd.Text.Quoted
import MiddleEnd.Text.Word

/-!
Values of flags: switches, whole numbers and spans of time.
-/

namespace MiddleEnd.CommandLine

def parseSwitch? (t : Text) : Option Bool :=
  let yes : List Text := ["1", "t", "T", "TRUE", "true", "True"]
  let no : List Text := ["0", "f", "F", "FALSE", "false", "False"]
  if yes.contains t then some true else if no.contains t then some false else none

def digitsOf? (base : Nat) : Text → Option Nat
  | [] => none
  | digits =>
    digits.foldl
      (fun (n : Option Nat) b =>
        match n, Text.hexValue? b with
        | some n, some d => if d < base then some (n * base + d) else none
        | _, _ => none)
      (some 0)

/-- Underscores stand between digits, or between the mark of a base and its first digit. -/
def underscoresFit : (afterDigit : Bool) → Text → Bool
  | afterDigit, [] => afterDigit
  | afterDigit, b :: bs =>
    if b = 95 then afterDigit && underscoresFit false bs else underscoresFit true bs

inductive NumberProblem where
  | malformed
  | range
  deriving DecidableEq, Repr, Inhabited

/-- The digits of a number of 64 bits. A number that grows too large is given up at once, whatever
follows. -/
def naturalFrom (base : Nat) : (n : Nat) → Text → Except NumberProblem Nat
  | n, [] => .ok n
  | n, b :: bs =>
    match Text.hexValue? b with
    | none => .error .malformed
    | some d =>
      if base ≤ d then .error .malformed
      else if 0x10000000000000000 ≤ n * base + d then .error .range
      else naturalFrom base (n * base + d) bs

def parseNatural (t : Text) : Except NumberProblem Nat := do
  let lower := t.map Text.lowerByte
  let (base, digits, marked) : Nat × Text × Bool :=
    match lower with
    | 48 :: 120 :: rest => (16, rest, true)
    | 48 :: 111 :: rest => (8, rest, true)
    | 48 :: 98 :: rest => (2, rest, true)
    | 48 :: b :: rest => (8, b :: rest, true)
    | digits => (10, digits, false)
  let plain := digits.filter (· != 95)
  if digits.isEmpty then throw .malformed
  let n ← naturalFrom base 0 plain
  if digits.contains 95 && !underscoresFit marked digits then throw .malformed
  return n

def parseNumber (t : Text) : Except NumberProblem Int := do
  let (negative, digits) : Bool × Text :=
    match t with
    | 45 :: rest => (true, rest)
    | 43 :: rest => (false, rest)
    | t => (false, t)
  let n ← parseNatural digits
  let limit := if negative then 0x8000000000000000 else 0x7fffffffffffffff
  if n ≤ limit then return if negative then -(n : Int) else n
  throw .range

def NumberProblem.message (value : Text) : NumberProblem → Text
  | .malformed => .concat ["strconv.ParseInt: parsing ", value.quoted, ": invalid syntax"]
  | .range => .concat ["strconv.ParseInt: parsing ", value.quoted, ": value out of range"]

def timeUnits : List (Text × Nat) :=
  [("ns", 1), ("us", 1000), ("µs", 1000), ("μs", 1000), ("ms", 1000000), ("s", 1000000000),
    ("m", 60000000000), ("h", 3600000000000)]

inductive DurationProblem where
  | malformed
  | missingUnit
  | unknownUnit (name : Text)
  deriving DecidableEq, Repr, Inhabited

def maxDuration : Nat := 0x8000000000000000

/-- The digits of a fraction and the power of ten behind it. Digits that make the number too large
are passed over. -/
def fractionOf : (n power : Nat) → Text → Nat × Nat
  | n, power, [] => (n, power)
  | n, power, b :: bs =>
    let next := n * 10 + (b.toNat - 48)
    if next ≤ maxDuration then fractionOf next (power * 10) bs else (n, power)

/-- A fraction of a unit in whole nanoseconds, by double-precision arithmetic. -/
def fractionNanos (n power size : Nat) : Nat :=
  let (a, b) := Decimal.toBinary n 1
  let (c, d) := Decimal.toBinary size power
  let (num, den) := Decimal.toBinary (a * c) (b * d)
  num / den

/-- Numbers with their units behind them. Each part and their sum stay below the limit. -/
def durationParts : (fuel : Nat) → (total : Nat) → Text → Except DurationProblem Nat
  | _, total, [] => .ok total
  | 0, _, _ :: _ => .error .malformed
  | fuel + 1, total, t => do
    let (whole, rest) := t.span Text.isDigit
    let n := (digitsOf? 10 whole).getD 0
    if maxDuration < n then throw .malformed
    let (fraction, rest) : Text × Text :=
      match rest with
      | 46 :: rest => rest.span Text.isDigit
      | rest => ([], rest)
    if whole.isEmpty && fraction.isEmpty then throw .malformed
    let (unit, rest) := rest.span fun b => b != 46 && !Text.isDigit b
    if unit.isEmpty then throw .missingUnit
    match timeUnits.lookup unit with
    | none => throw (.unknownUnit unit)
    | some size =>
      let (numerator, power) := fractionOf 0 1 fraction
      let part := n * size + fractionNanos numerator power size
      let total := (total + part) % 0x10000000000000000
      if maxDuration < part || maxDuration < total then throw .malformed
      else durationParts fuel total rest

def parseDuration (t : Text) : Except DurationProblem Int := do
  let (negative, digits) : Bool × Text :=
    match t with
    | 45 :: rest => (true, rest)
    | 43 :: rest => (false, rest)
    | t => (false, t)
  if digits == Text.ofString "0" then return 0
  if digits.isEmpty then throw .malformed
  let total ← durationParts digits.length 0 digits
  if negative then return -total
  if maxDuration ≤ total then throw .malformed
  return total

def DurationProblem.message (value : Text) : DurationProblem → Text
  | .malformed => "time: invalid duration " ++ value.quotedBytes
  | .missingUnit => "time: missing unit in duration " ++ value.quotedBytes
  | .unknownUnit name =>
    .concat ["time: unknown unit ", name.quotedBytes, " in duration ", value.quotedBytes]

end MiddleEnd.CommandLine
