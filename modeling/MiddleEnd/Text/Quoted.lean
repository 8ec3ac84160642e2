import MiddleEnd.Text.Utf8
import MiddleEnd.Text.Printable

/-!
Quoted text: double quotes around the characters, with escapes for quotes, backslashes and all that
is not printable.
-/

namespace MiddleEnd.Text

def escapeLetter? (code : Nat) : Option Char :=
  match code with
  | 7 => some 'a'
  | 8 => some 'b'
  | 9 => some 't'
  | 10 => some 'n'
  | 11 => some 'v'
  | 12 => some 'f'
  | 13 => some 'r'
  | _ => none

def quotedChar (quote : Char) (c : Char) : Text :=
  let code := c.toNat
  if c = quote || c = '\\' then [byte '\\', byte c]
  else if isPrintable code then ofChar c
  else match escapeLetter? code with
    | some letter => [byte '\\', byte letter]
    | none =>
      if code < 0x20 || code = 0x7F then "\\x" ++ hexDigits 2 code
      else if code < 0x10000 then "\\u" ++ hexDigits 4 code
      else "\\U" ++ hexDigits 8 code

def quotedRune : Rune → Text
  | .char c => quotedChar '"' c
  | .stray b => "\\x" ++ hexDigits 2 b.toNat

def quoted (t : Text) : Text :=
  byte '"' :: (runes t).flatMap quotedRune ++ [byte '"']

/-- Quoted text of bytes: those that are no ASCII, and controls but the last one, by their number. -/
def quotedBytes (t : Text) : Text :=
  let inner (b : UInt8) : Text :=
    if b < 0x20 || 0x80 ≤ b then "\\x" ++ hexDigits 2 b.toNat
    else if b = byte '"' || b = byte '\\' then [byte '\\', b]
    else [b]
  byte '"' :: t.flatMap inner ++ [byte '"']

def quotedAlone (c : Char) : Text :=
  byte '\'' :: quotedChar '\'' c ++ [byte '\'']

end MiddleEnd.Text
