import MiddleEnd.Text.Basic

/-!
Numbers with a fixed count of decimal places, by way of double precision; a tie goes to the even
neighbour.
-/

namespace MiddleEnd.Decimal

/-- The whole number nearest to a ratio, the even one of two that are as near. -/
def roundDiv (num den : Nat) : Nat :=
  let q := num / den
  let twice := 2 * (num % den)
  if twice < den then q else if den < twice then q + 1 else q + q % 2

def scale (num den : Nat) (shift : Int) : Nat × Nat :=
  if 0 ≤ shift then (num * Nat.pow 2 shift.toNat, den)
  else (num, den * Nat.pow 2 (-shift).toNat)

/-- The shift that moves a positive ratio between `2 ^ 52` and `2 ^ 53`. -/
def significantShift (num den : Nat) : Int :=
  let guess : Int := 52 - ((num.log2 : Int) - den.log2)
  let (n, d) := scale num den guess
  if n < Nat.pow 2 52 * d then guess + 1 else guess

def toBinary (num den : Nat) : Nat × Nat :=
  if num = 0 then (0, 1)
  else
    let shift := significantShift num den
    let (n, d) := scale num den shift
    scale (roundDiv n d) 1 (-shift)

def withPlaces (places units : Nat) : Text :=
  let digits := Text.ofNat units
  let digits := List.replicate (places + 1 - digits.length) 48 ++ digits
  .concat [digits.take (digits.length - places), ".", digits.drop (digits.length - places)]

def fixed (places num den : Nat) : Text :=
  let (a, b) := toBinary num 1
  let (n, d) := toBinary a (b * den)
  withPlaces places (roundDiv (n * Nat.pow 10 places) d)

/-- A signed ratio; the sign stays also where all digits are zero. -/
def fixedInt (places : Nat) (num : Int) (den : Nat) : Text :=
  if num < 0 then 45 :: fixed places num.natAbs den else fixed places num.natAbs den

end MiddleEnd.Decimal
