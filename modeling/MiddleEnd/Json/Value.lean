import MiddleEnd.Text.Utf8

/-!
JSON values and their texts. A number is kept as it is written, and the members of an object in the
order they come, repeated keys included.
-/

namespace MiddleEnd

inductive Json where
  | null
  | bool (b : Bool)
  | number (literal : Text)
  | string (t : Text)
  | array (items : List Json)
  | object (members : List (Text × Json))
  deriving Repr, Inhabited

namespace Json

def escape? (c : Char) : Option Text :=
  match c.toNat with
  | 0x22 => some "\\\""
  | 0x5C => some "\\\\"
  | 8 => some "\\b"
  | 12 => some "\\f"
  | 10 => some "\\n"
  | 13 => some "\\r"
  | 9 => some "\\t"
  | code =>
    if code < 0x20 || c = '<' || c = '>' || c = '&' || code = 0x2028 || code = 0x2029 then
      some ("\\u" ++ Text.hexDigits 4 code)
    else none

def quotedRune (r : Rune) : Text :=
  match r with
  | .char c => (escape? c).getD (Text.ofChar c)
  | .stray _ => Text.ofChar (Char.ofNat 0xFFFD)

def quoted (t : Text) : Text :=
  .concat ["\"", t.runes.flatMap quotedRune, "\""]

/-- What stands between the parts of a list or an object: nothing in the compact style. -/
def lineBreak (indented : Bool) (depth : Nat) : Text :=
  if indented then Text.newline :: Text.repeated depth "  " else []

mutual
def write (indented : Bool) (depth : Nat) : Json → Text
  | .null => "null"
  | .bool b => .ofBool b
  | .number literal => literal
  | .string t => quoted t
  | .array [] => "[]"
  | .array (item :: items) =>
    "[" ++ lineBreak indented (depth + 1) ++ write indented (depth + 1) item ++
      writeItems indented (depth + 1) items ++ lineBreak indented depth ++ "]"
  | .object [] => "\x7b\x7d"
  | .object ((key, value) :: members) =>
    "\x7b" ++ lineBreak indented (depth + 1) ++ writeKey indented key ++
      write indented (depth + 1) value ++ writeMembers indented (depth + 1) members ++
      lineBreak indented depth ++ "\x7d"
def writeItems (indented : Bool) (depth : Nat) : List Json → Text
  | [] => []
  | item :: items =>
    "," ++ lineBreak indented depth ++ write indented depth item ++
      writeItems indented depth items
def writeMembers (indented : Bool) (depth : Nat) : List (Text × Json) → Text
  | [] => []
  | (key, value) :: members =>
    "," ++ lineBreak indented depth ++ writeKey indented key ++ write indented depth value ++
      writeMembers indented depth members
def writeKey (indented : Bool) (key : Text) : Text :=
  quoted key ++ if indented then ": " else ":"
end

mutual
def tooDeep? (room : Nat) : Json → Option UInt8
  | .array items =>
    match room with
    | 0 => some 91
    | room + 1 => itemsTooDeep? room items
  | .object members =>
    match room with
    | 0 => some 123
    | room + 1 => membersTooDeep? room members
  | _ => none
def itemsTooDeep? (room : Nat) : List Json → Option UInt8
  | [] => none
  | item :: items => (tooDeep? room item).or (itemsTooDeep? room items)
def membersTooDeep? (room : Nat) : List (Text × Json) → Option UInt8
  | [] => none
  | (_, value) :: members => (tooDeep? room value).or (membersTooDeep? room members)
end

def compact (j : Json) : Text :=
  j.write false 0

/-- Two blanks of indentation a level, and a line end at the end. -/
def pretty (j : Json) : Text :=
  j.write true 0 ++ [Text.newline]

def ofNat (n : Nat) : Json := .number (.ofNat n)

end Json

end MiddleEnd
