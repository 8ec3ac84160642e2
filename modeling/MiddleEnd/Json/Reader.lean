import MiddleEnd.Json.Value

/-!
Reading JSON. The first value of a text is read and what follows it is left alone.
-/

namespace MiddleEnd.Json

def isBlank (b : UInt8) : Bool := b = 32 || b = 9 || b = 10 || b = 13

def skipBlanks (t : Text) : Text := t.dropWhile isBlank

def hex4? (a b c d : UInt8) : Option Nat := do
  let a ← Text.hexValue? a
  let b ← Text.hexValue? b
  let c ← Text.hexValue? c
  let d ← Text.hexValue? d
  some (((a * 16 + b) * 16 + c) * 16 + d)

def isHighSurrogate (n : Nat) : Bool := 0xD800 ≤ n && n < 0xDC00

def isLowSurrogate (n : Nat) : Bool := 0xDC00 ≤ n && n < 0xE000

/-- A code unit on its own; half of a pair becomes the replacement character. -/
def unitBytes (n : Nat) : Text :=
  Text.ofChar (Char.ofNat (if 0xD800 ≤ n && n < 0xE000 then 0xFFFD else n))

def pairBytes (high low : Nat) : Text :=
  Text.ofChar (Char.ofNat (0x10000 + (high - 0xD800) * 1024 + (low - 0xDC00)))

def simpleEscape? (b : UInt8) : Option UInt8 :=
  match b with
  | 34 => some 34
  | 92 => some 92
  | 47 => some 47
  | 98 => some 8
  | 102 => some 12
  | 110 => some 10
  | 114 => some 13
  | 116 => some 9
  | _ => none

def halfBytes : (pending : Option Nat) → Text
  | none => []
  | some high => unitBytes high

def unitStep (pending : Option Nat) (unit : Nat) : Text × Option Nat :=
  match pending with
  | some high =>
    if isLowSurrogate unit then (pairBytes high unit, none)
    else if isHighSurrogate unit then (unitBytes high, some unit)
    else (unitBytes high ++ unitBytes unit, none)
  | none => if isHighSurrogate unit then ([], some unit) else (unitBytes unit, none)

def readString : (pending : Option Nat) → Text → Option (Text × Text)
  | _, [] => none
  | pending, 34 :: rest => some (halfBytes pending, rest)
  | pending, 92 :: 117 :: a :: b :: c :: d :: rest => do
    let unit ← hex4? a b c d
    let (settled, pending) := unitStep pending unit
    let (bytes, rest) ← readString pending rest
    some (settled ++ bytes, rest)
  | pending, 92 :: b :: rest => do
    let escaped ← simpleEscape? b
    let (bytes, rest) ← readString none rest
    some (halfBytes pending ++ escaped :: bytes, rest)
  | pending, b :: rest =>
    if b < 32 || b = 92 then none
    else do
      let (bytes, rest) ← readString none rest
      some (halfBytes pending ++ b :: bytes, rest)
  termination_by structural _ t => t

def string? (t : Text) : Option (Text × Text) :=
  (readString none t).map fun (bytes, rest) => (Text.ofChars bytes.chars, rest)

def digits (t : Text) : Text × Text := t.span Text.isDigit

def digits? (t : Text) : Option (Text × Text) :=
  match digits t with
  | ([], _) => none
  | (ds, rest) => some (ds, rest)

def fraction? : Text → Option (Text × Text)
  | 46 :: rest => (digits? rest).map fun (ds, rest) => (46 :: ds, rest)
  | t => some ([], t)

def exponent? : Text → Option (Text × Text)
  | [] => some ([], [])
  | b :: rest =>
    if b = 101 || b = 69 then
      match rest with
      | 43 :: rest => (digits? rest).map fun (ds, rest) => (b :: 43 :: ds, rest)
      | 45 :: rest => (digits? rest).map fun (ds, rest) => (b :: 45 :: ds, rest)
      | rest => (digits? rest).map fun (ds, rest) => (b :: ds, rest)
    else some ([], b :: rest)

/-- A zero stands alone, every other integer part starts with another digit. -/
def unsigned? : Text → Option (Text × Text)
  | 48 :: rest => some ([48], rest)
  | t => digits? t

def number? (t : Text) : Option (Text × Text) := do
  let (sign, t) : Text × Text := match t with
    | 45 :: rest => ([45], rest)
    | t => ([], t)
  let (whole, t) ← unsigned? t
  let (fraction, t) ← fraction? t
  let (exponent, t) ← exponent? t
  some (sign ++ whole ++ fraction ++ exponent, t)

mutual
/-- A value at the front of a text. Lists and objects may nest `depth` deep. -/
def value? : (fuel depth : Nat) → Text → Option (Json × Text)
  | 0, _, _ => none
  | fuel + 1, depth, t =>
    match skipBlanks t with
    | [] => none
    | 34 :: rest => (string? rest).map fun (s, rest) => (.string s, rest)
    | 91 :: rest =>
      match depth with
      | 0 => none
      | depth + 1 =>
        match skipBlanks rest with
        | 93 :: rest => some (.array [], rest)
        | rest => (items? fuel depth rest).map fun (items, rest) => (.array items, rest)
    | 123 :: rest =>
      match depth with
      | 0 => none
      | depth + 1 =>
        match skipBlanks rest with
        | 125 :: rest => some (.object [], rest)
        | rest => (members? fuel depth rest).map fun (members, rest) => (.object members, rest)
    | 116 :: 114 :: 117 :: 101 :: rest => some (.bool true, rest)
    | 102 :: 97 :: 108 :: 115 :: 101 :: rest => some (.bool false, rest)
    | 110 :: 117 :: 108 :: 108 :: rest => some (.null, rest)
    | t => (number? t).map fun (literal, rest) => (.number literal, rest)
def items? : (fuel depth : Nat) → Text → Option (List Json × Text)
  | 0, _, _ => none
  | fuel + 1, depth, t => do
    let (item, rest) ← value? fuel depth t
    match skipBlanks rest with
    | 44 :: rest =>
      let (items, rest) ← items? fuel depth rest
      some (item :: items, rest)
    | 93 :: rest => some ([item], rest)
    | _ => none
def members? : (fuel depth : Nat) → Text → Option (List (Text × Json) × Text)
  | 0, _, _ => none
  | fuel + 1, depth, t =>
    match skipBlanks t with
    | 34 :: rest => do
      let (key, rest) ← string? rest
      match skipBlanks rest with
      | 58 :: rest =>
        let (value, rest) ← value? fuel depth rest
        match skipBlanks rest with
        | 44 :: rest =>
          let (members, rest) ← members? fuel depth rest
          some ((key, value) :: members, rest)
        | 125 :: rest => some ([(key, value)], rest)
        | _ => none
      | _ => none
    | _ => none
end

def maxDepth : Nat := 10000

/-- The first value of a text. Every second step of the reader takes a byte, so the length bounds
the fuel. -/
def read? (t : Text) : Option Json :=
  (value? (2 * t.length + 2) maxDepth t).map Prod.fst

end MiddleEnd.Json
