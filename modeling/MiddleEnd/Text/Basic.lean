/-!
Text is a list of bytes. Names come from files and need not be valid UTF-8, and every listing and
message that shows a name passes its bytes through unchanged.
-/

namespace MiddleEnd

abbrev Text := List UInt8

namespace Text

def ofString (s : String) : Text :=
  s.toUTF8.data.toList

instance : Coe String Text := ⟨ofString⟩

def toString? (t : Text) : Option String :=
  String.fromUTF8? ⟨t.toArray⟩

def byte (c : Char) : UInt8 := c.toUInt8

def newline : UInt8 := 10

def blank : UInt8 := 32

def ofNat (n : Nat) : Text :=
  if n < 10 then [UInt8.ofNat (48 + n)]
  else ofNat (n / 10) ++ [UInt8.ofNat (48 + n % 10)]
  termination_by n
  decreasing_by omega

def ofInt : Int → Text
  | .ofNat n => ofNat n
  | .negSucc n => 45 :: ofNat (n + 1)

def ofBool : Bool → Text
  | true => "true"
  | false => "false"

def hexDigit (n : Nat) : UInt8 :=
  UInt8.ofNat (if n < 10 then 48 + n else 87 + n)

def hexDigits : (count : Nat) → Nat → Text
  | 0, _ => []
  | count + 1, n => hexDigits count (n / 16) ++ [hexDigit (n % 16)]

def hex (bytes : Text) : Text :=
  bytes.flatMap fun b => hexDigits 2 b.toNat

def concat (parts : List Text) : Text :=
  parts.flatten

def join (separator : Text) : List Text → Text
  | [] => []
  | [part] => part
  | part :: rest => part ++ separator ++ join separator rest

def joinLines (parts : List Text) : Text :=
  join [newline] parts

def lines (parts : List Text) : Text :=
  parts.flatMap fun part => part ++ [newline]

def repeated (n : Nat) (t : Text) : Text :=
  (List.replicate n t).flatten

def padRight (width : Nat) (t : Text) : Text :=
  t ++ List.replicate (width - t.length) blank

def padLeft (width : Nat) (t : Text) : Text :=
  List.replicate (width - t.length) blank ++ t

def isUpper (b : UInt8) : Bool := 65 ≤ b && b ≤ 90

def isLower (b : UInt8) : Bool := 97 ≤ b && b ≤ 122

def isDigit (b : UInt8) : Bool := 48 ≤ b && b ≤ 57

def lowerByte (b : UInt8) : UInt8 := if isUpper b then b + 32 else b

def after? : (lead t : Text) → Option Text
  | [], t => some t
  | _ :: _, [] => none
  | a :: lead, b :: t => if a = b then after? lead t else none

def startsWith (lead t : Text) : Bool :=
  (after? lead t).isSome

def endsWith (tail t : Text) : Bool :=
  startsWith tail.reverse t.reverse

def cut? (separator : UInt8) : Text → Option (Text × Text)
  | [] => none
  | b :: rest =>
    if b = separator then some ([], rest)
    else (cut? separator rest).map fun (left, right) => (b :: left, right)

def around? (part : Text) : Text → Option (Text × Text)
  | [] => if part.isEmpty then some ([], []) else none
  | b :: rest =>
    match after? part (b :: rest) with
    | some behind => some ([], behind)
    | none => (around? part rest).map fun (before, behind) => (b :: before, behind)

def replaceFirst (part new t : Text) : Text :=
  match around? part t with
  | some (before, behind) => before ++ new ++ behind
  | none => t

def replaceFrom (part new : Text) : (skipped : Nat) → Text → Text
  | _, [] => []
  | skipped + 1, _ :: rest => replaceFrom part new skipped rest
  | 0, b :: rest =>
    if startsWith part (b :: rest) then new ++ replaceFrom part new (part.length - 1) rest
    else b :: replaceFrom part new 0 rest

def replaceAll (part new t : Text) : Text :=
  replaceFrom part new 0 t

def split (separator : UInt8) : Text → List Text
  | [] => [[]]
  | b :: rest =>
    if b = separator then [] :: split separator rest
    else match split separator rest with
      | [] => [[b]]
      | piece :: pieces => (b :: piece) :: pieces

/-- Order by the first differing byte, a leading part before its extensions. -/
def le : Text → Text → Bool
  | [], _ => true
  | _ :: _, [] => false
  | a :: s, b :: t => if a < b then true else if b < a then false else le s t

def lt (s t : Text) : Bool :=
  !le t s

def sort (texts : List Text) : List Text :=
  texts.mergeSort le

def toNat? : Text → Option Nat
  | [] => none
  | digits => digits.foldl
      (fun n? b => n?.bind fun n =>
        if isDigit b then some (10 * n + (b.toNat - 48)) else none)
      (some 0)

def hexValue? (b : UInt8) : Option Nat :=
  if isDigit b then some (b.toNat - 48)
  else if 97 ≤ b && b ≤ 102 then some (b.toNat - 87)
  else if 65 ≤ b && b ≤ 70 then some (b.toNat - 55)
  else none

def ofHex? : Text → Option Text
  | [] => some []
  | [_] => none
  | a :: b :: rest => do
    let high ← hexValue? a
    let low ← hexValue? b
    let tail ← ofHex? rest
    some (UInt8.ofNat (16 * high + low) :: tail)

end Text

end MiddleEnd
