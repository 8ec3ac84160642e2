import MiddleEnd.Text.Case

/-!
Words as people type them: blanks around them and the case of their letters do not matter.
-/

namespace MiddleEnd.Text

def isSpace (code : Nat) : Bool :=
  (9 ≤ code && code ≤ 13) || code = 0x20 || code = 0x85 || code = 0xA0 || code = 0x1680 ||
    (0x2000 ≤ code && code ≤ 0x200A) || code = 0x2028 || code = 0x2029 || code = 0x202F ||
    code = 0x205F || code = 0x3000

def isSpaceRune : Rune → Bool
  | .char c => isSpace c.toNat
  | .stray _ => false

def trim (t : Text) : Text :=
  let behind := t.runes.dropWhile isSpaceRune
  (behind.reverse.dropWhile isSpaceRune).reverse.flatMap Rune.bytes

def fieldsFrom : (piece : Text) → List Rune → List Text
  | piece, [] => if piece.isEmpty then [] else [piece]
  | piece, r :: rs =>
    if isSpaceRune r then
      if piece.isEmpty then fieldsFrom [] rs else piece :: fieldsFrom [] rs
    else fieldsFrom (piece ++ r.bytes) rs

def fields (t : Text) : List Text :=
  fieldsFrom [] t.runes

/-- Letters without their case; the long s and the Kelvin sign count as cases of the letters they
fold to. -/
def foldChar (c : Char) : Char :=
  if c = 'ſ' then 's' else if c = 'K' then 'k' else c.toLower

def foldCase (t : Text) : List Char :=
  t.chars.map foldChar

def keyword (t : Text) : Text :=
  t.trim.lower

end MiddleEnd.Text
