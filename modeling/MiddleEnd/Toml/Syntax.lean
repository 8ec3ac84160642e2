import MiddleEnd.Text.Basic

/-!
Documents of keys and values as they are written: headers of tables and pairs below them.
-/

namespace MiddleEnd.Toml

abbrev Key := List Text

/-- Of floating-point numbers and of dates and times nothing but their being there is kept. -/
inductive Term where
  | string (t : Text)
  | integer (n : Int)
  | float
  | boolean (b : Bool)
  | moment
  | array (items : List Term)
  | inlineTable (pairs : List (Key × Term))
  deriving Inhabited

inductive Item where
  | table (key : Key)
  | element (key : Key)
  | pair (key : Key) (value : Term)
  deriving Inhabited

def isBareKeyByte (b : UInt8) : Bool :=
  Text.isUpper b || Text.isLower b || Text.isDigit b || b == Text.byte '_' || b == Text.byte '-'

def escapeByte (b : UInt8) : Text :=
  match b with
  | 8 => "\\b"
  | 9 => "\\t"
  | 10 => "\\n"
  | 12 => "\\f"
  | 13 => "\\r"
  | 34 => "\\\""
  | 92 => "\\\\"
  | _ => if b < 32 || b = 127 then "\\u" ++ Text.hexDigits 4 b.toNat else [b]

def printPart (part : Text) : Text :=
  if !part.isEmpty && part.all isBareKeyByte then part
  else Text.concat ["\"", part.flatMap escapeByte, "\""]

def Key.print (key : Key) : Text :=
  Text.join "." (key.map printPart)

end MiddleEnd.Toml
