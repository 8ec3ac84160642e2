import MiddleEnd.Text.Basic

/-!
MessagePack values. Numbers keep the width they are written in, so that a value has one text.
-/

namespace MiddleEnd.MessagePack

/-- A width counts the bytes behind the code. An array also says how many announced items are
missing. -/
inductive Value where
  | nil
  | bool (b : Bool)
  | uint (width n : Nat)
  | sint (width : Nat) (n : Int)
  | float (bytes : Text)
  | str (t : Text)
  | bin (t : Text)
  | array (items : List Value) (missing : Nat)
  | map (pairs : List (Value × Value))
  | ext (bytes : Text)
  | broken
  deriving Repr, Inhabited

def bigEndian : (count : Nat) → Nat → Text
  | 0, _ => []
  | count + 1, n => bigEndian count (n / 256) ++ [UInt8.ofNat n]

/-- A length in its shortest form. Not every kind of value has a code for one byte. -/
def header (n small : Nat) (base : UInt8) (one? : Option UInt8) (two four : UInt8) : Text :=
  if n < small then [base + UInt8.ofNat n]
  else match one? with
    | some one => if n < 0x100 then [one, UInt8.ofNat n] else wide
    | none => wide
where
  wide : Text := if n < 0x10000 then two :: bigEndian 2 n else four :: bigEndian 4 n

def uintCode (width : Nat) : UInt8 :=
  match width with
  | 1 => 0xCC
  | 2 => 0xCD
  | 4 => 0xCE
  | _ => 0xCF

def sintCode (width : Nat) : UInt8 :=
  match width with
  | 1 => 0xD0
  | 2 => 0xD1
  | 4 => 0xD2
  | _ => 0xD3

def writeUint (width n : Nat) : Text :=
  if width = 0 then [UInt8.ofNat n] else uintCode width :: bigEndian width n

def writeSint (width : Nat) (n : Int) : Text :=
  let bits := (n % Nat.pow 256 (width.max 1)).toNat
  if width = 0 then [UInt8.ofNat bits] else sintCode width :: bigEndian width bits

mutual
def Value.write : Value → Text
  | .nil => [0xC0]
  | .bool b => [if b then 0xC3 else 0xC2]
  | .uint width n => writeUint width n
  | .sint width n => writeSint width n
  | .float bytes => (if bytes.length = 4 then 0xCA else 0xCB) :: bytes
  | .str t => header t.length 32 0xA0 (some 0xD9) 0xDA 0xDB ++ t
  | .bin t => header t.length 0 0 (some 0xC4) 0xC5 0xC6 ++ t
  | .array items _ => header items.length 16 0x90 none 0xDC 0xDD ++ writeItems items
  | .map pairs => header pairs.length 16 0x80 none 0xDE 0xDF ++ writePairs pairs
  | .ext bytes => bytes
  | .broken => [0xC1]
def writeItems : List Value → Text
  | [] => []
  | item :: items => item.write ++ writeItems items
def writePairs : List (Value × Value) → Text
  | [] => []
  | (key, value) :: pairs => key.write ++ value.write ++ writePairs pairs
end

mutual
def Value.isWhole : Value → Bool
  | .broken => false
  | .array items missing => missing == 0 && areWhole items
  | .map pairs => arePairsWhole pairs
  | _ => true
def areWhole : List Value → Bool
  | [] => true
  | item :: items => item.isWhole && areWhole items
def arePairsWhole : List (Value × Value) → Bool
  | [] => true
  | (key, value) :: pairs => key.isWhole && value.isWhole && arePairsWhole pairs
end

end MiddleEnd.MessagePack
