import MiddleEnd.Toml.Syntax

/-!
The numbers of documents. An underscore may stand between two digits, and no decimal number has
leading zeros.
-/

namespace MiddleEnd.Toml

def digitValue? (c : Char) : Option Nat :=
  if c.isDigit then some (c.toNat - 48)
  else if 'a' ≤ c ∧ c ≤ 'f' then some (c.toNat - 87)
  else if 'A' ≤ c ∧ c ≤ 'F' then some (c.toNat - 55)
  else none

def isDigitOf (base : Nat) (c : Char) : Bool :=
  ((digitValue? c).map fun d => decide (d < base)).getD false

/-- Every underscore has a digit before and behind it, and the last character is a digit. -/
def underscoresFit : (afterDigit : Bool) → List Char → Bool
  | afterDigit, [] => afterDigit
  | afterDigit, c :: cs =>
    if c = '_' then afterDigit && underscoresFit false cs else underscoresFit (isDigitOf 16 c) cs

def withoutUnderscores (cs : List Char) : List Char :=
  cs.filter (· != '_')

def ofDigits (base : Nat) (cs : List Char) : Nat :=
  cs.foldl (fun n c => n * base + (digitValue? c).getD 0) 0

def signed : List Char → Bool × List Char
  | '-' :: cs => (true, cs)
  | '+' :: cs => (false, cs)
  | cs => (false, cs)

def hasLeadingZero (cs : List Char) : Bool :=
  match (signed cs).2 with
  | '0' :: _ :: _ => true
  | _ => false

def fits64 (n : Int) : Bool :=
  -0x8000000000000000 ≤ n && n < 0x8000000000000000

def decimal? (cs : List Char) : Option Int :=
  let (negative, digits) := signed cs
  let n : Int := ofDigits 10 (withoutUnderscores digits)
  let n := if negative then -n else n
  if underscoresFit false cs && !hasLeadingZero cs && fits64 n then some n else none

def based? (base : Nat) (cs : List Char) : Option Int :=
  let n : Int := ofDigits base (withoutUnderscores cs)
  if underscoresFit false cs && fits64 n then some n else none

/-! Floating-point numbers. -/

def isFloatBreak (c : Char) : Bool :=
  c == '.' || c == 'e' || c == 'E'

def floatPieces : (piece : List Char) → List Char → List (List Char)
  | piece, [] => if piece.isEmpty then [] else [piece.reverse]
  | piece, c :: cs =>
    if isFloatBreak c then
      if piece.isEmpty then floatPieces [] cs else piece.reverse :: floatPieces [] cs
    else floatPieces (c :: piece) cs

def pointsFit : List Char → Bool
  | [] => true
  | '.' :: cs => (cs.head?.map Char.isDigit).getD false && pointsFit cs
  | _ :: cs => pointsFit cs

def floatParts? (cs : List Char) : Option (List Char × List Char × Int) :=
  let (whole, rest) := cs.span Char.isDigit
  let (fraction, rest) : List Char × List Char :=
    match rest with
    | '.' :: rest => rest.span Char.isDigit
    | rest => ([], rest)
  match rest with
  | [] => some (whole, fraction, 0)
  | c :: rest =>
    let (negative, digits) := signed rest
    if (c == 'e' || c == 'E') && !digits.isEmpty && digits.all Char.isDigit then
      let n : Int := ofDigits 10 digits
      some (whole, fraction, if negative then -n else n)
    else none

/-- From here on a number rounds to more than the largest double-precision number. -/
def floatBound : Nat := Nat.pow 2 1024 - Nat.pow 2 970

def isBounded (whole fraction : List Char) (exponent : Int) : Bool :=
  let digits := (whole ++ fraction).dropWhile (· == '0')
  let shift := exponent - fraction.length
  if digits.isEmpty || digits.length + shift < 0 then true
  else if 400 < digits.length + shift then false
  else if 0 ≤ shift then ofDigits 10 digits * Nat.pow 10 shift.toNat < floatBound
  else ofDigits 10 digits < floatBound * Nat.pow 10 (-shift).toNat

def isFloat (cs : List Char) : Bool :=
  let pieces := floatPieces [] cs
  pieces.all (underscoresFit false) && !((pieces.head?.map hasLeadingZero).getD false)
    && pointsFit cs
    && match floatParts? (signed (withoutUnderscores cs)).2 with
      | some (whole, fraction, exponent) => isBounded whole fraction exponent
      | none => false

end MiddleEnd.Toml
