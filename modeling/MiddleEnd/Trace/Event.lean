import MiddleEnd.Decimal.Fixed
import MiddleEnd.Json.Value
import MiddleEnd.Trace.Instant
import MiddleEnd.Trace.Level

/-!
Trace events and their two written forms: a line of text with the time since an origin, and a line
of JSON.
-/

namespace MiddleEnd.Trace

inductive Kind where
  | unknown
  | spanBegin
  | spanEnd
  | point
  | other (code : UInt8)
  deriving DecidableEq, Repr, Inhabited

namespace Kind

def ofCode (code : UInt8) : Kind :=
  match code with
  | 0 => .unknown
  | 1 => .spanBegin
  | 2 => .spanEnd
  | 3 => .point
  | _ => .other code

def name : Kind → Text
  | .spanBegin => "begin"
  | .spanEnd => "end"
  | .point => "point"
  | .unknown | .other _ => "unknown"

def mark : Kind → Text
  | .spanBegin => "→ "
  | .spanEnd => "← "
  | .point => "• "
  | .unknown | .other _ => []

end Kind

abbrev Notes := List (Text × Text)

namespace Notes

def insert (key value : Text) : Notes → Notes
  | [] => [(key, value)]
  | (k, v) :: notes =>
    if k = key then (key, value) :: notes
    else if key.lt k then (key, value) :: (k, v) :: notes
    else (k, v) :: insert key value notes

def ofList (pairs : List (Text × Text)) : Notes :=
  pairs.foldl (fun notes (key, value) => notes.insert key value) []

end Notes

/-- A span of zero is none, and so is a parent of zero. -/
structure Event where
  time : Instant := Instant.unset
  seq : Nat := 0
  kind : Kind
  scope : Scope
  span : Nat := 0
  parent : Nat := 0
  name : Text
  detail : Text := []
  extra : Option Notes := none
  deriving DecidableEq, Repr, Inhabited

/-- How events are written; `auto` leaves the choice to the path that is written to. -/
inductive Format where
  | auto
  | text
  | ndjson
  | other (code : UInt8)
  deriving DecidableEq, Repr, Inhabited

namespace Format

def ofCode (code : UInt8) : Format :=
  match code with
  | 0 => .auto
  | 1 => .text
  | 2 => .ndjson
  | _ => .other code

def code : Format → UInt8
  | .auto => 0
  | .text => 1
  | .ndjson => 2
  | .other code => code

def parse? (t : Text) : Option Format :=
  let word := t.keyword
  if word.isEmpty || word == Text.ofString "auto" then some .auto
  else if word == Text.ofString "text" then some .text
  else if word == Text.ofString "ndjson" || word == Text.ofString "json" then some .ndjson
  else none

def parse (t : Text) : Except Text Format :=
  match parse? t with
  | some format => .ok format
  | none =>
    .error (.concat ["invalid trace format: ", t.quoted, " (expected: auto|text|ndjson)"])

def ofPath (path : Text) : Format :=
  if Text.endsWith ".ndjson" path || Text.endsWith ".jsonl" path then .ndjson else .text

end Format

namespace Event

def extraText (e : Event) : Text :=
  match e.extra with
  | none | some [] => []
  | some notes =>
    .concat [" \x7b", .join ", " (notes.map fun (key, value) => key ++ "=" ++ value), "\x7d"]

/-- Milliseconds since the origin; none have passed since an origin that was never set. -/
def elapsed (e : Event) (origin : Instant) : Text :=
  let nanos := if origin = Instant.unset then 0 else Instant.since e.time origin
  (Decimal.fixedInt 3 nanos 1000000).padLeft 9

def textLine (e : Event) (origin : Instant) : Text :=
  let detail : Text := if e.detail.isEmpty then [] else .concat [" (", e.detail, ")"]
  .concat
    ["[", e.elapsed origin, "ms] ", e.scope.name.padRight 6, " ", e.kind.mark, e.name, detail,
      e.extraText, "\n"]

def toJson (e : Event) : Json :=
  let number (key : Text) (n : Nat) : List (Text × Json) := if n = 0 then [] else [(key, .ofNat n)]
  let detail : List (Text × Json) := if e.detail.isEmpty then [] else [("detail", .string e.detail)]
  let extra : List (Text × Json) :=
    match e.extra with
    | none | some [] => []
    | some notes => [("extra", .object (notes.map fun (key, value) => (key, .string value)))]
  .object
    ([(("time" : Text), Json.string (Instant.print e.time)), ("seq", .ofNat e.seq),
        ("kind", .string e.kind.name), ("scope", .string e.scope.name)]
      ++ number "span_id" e.span ++ number "parent_id" e.parent
      ++ [(("name" : Text), Json.string e.name)] ++ detail ++ extra)

def print (e : Event) (format : Format) (origin : Instant) : Text :=
  match format with
  | .ndjson => e.toJson.compact ++ [Text.newline]
  | _ => e.textLine origin

end Event

end MiddleEnd.Trace
