import MiddleEnd.Text.Quoted

/-!
Version numbers: three segments, of which the last two may be left out, a pre-release and metadata.
-/

namespace MiddleEnd

structure Version where
  major : Nat
  minor : Nat
  patch : Nat
  pre : Text := []
  metadata : Text := []
  deriving DecidableEq, Repr, Inhabited

inductive VersionError where
  | invalid
  | outOfRange (segment : Text)
  | leadingZero
  deriving DecidableEq, Repr, Inhabited

def VersionError.message : VersionError → Text
  | .invalid => "Invalid Semantic Version"
  | .outOfRange segment =>
    .concat ["Error parsing version segment: strconv.ParseUint: parsing ", segment.quoted,
      ": value out of range"]
  | .leadingZero => "Version segment starts with 0"

namespace Version

def print (v : Version) : Text :=
  let pre : Text := if v.pre.isEmpty then [] else "-" ++ v.pre
  let metadata : Text := if v.metadata.isEmpty then [] else "+" ++ v.metadata
  .concat [.ofNat v.major, ".", .ofNat v.minor, ".", .ofNat v.patch, pre, metadata]

def isLabelByte (b : UInt8) : Bool :=
  Text.isDigit b || Text.isUpper b || Text.isLower b || b = Text.byte '-'

def label? (t : Text) : Option (Text × Text) :=
  match t.span isLabelByte with
  | ([], _) => none
  | parts => some parts

def labelsFrom : (fuel : Nat) → (read : Text) → Text → Text × Text
  | fuel + 1, read, 46 :: rest =>
    match label? rest with
    | some (label, rest) => labelsFrom fuel (read ++ 46 :: label) rest
    | none => (read, 46 :: rest)
  | _, read, rest => (read, rest)

def marked (mark : UInt8) : Text → Text × Text
  | [] => ([], [])
  | b :: rest =>
    if b = mark then
      match label? rest with
      | some (label, rest) => labelsFrom rest.length label rest
      | none => ([], b :: rest)
    else ([], b :: rest)

structure Parts where
  major : Text
  minor : Text
  patch : Text
  pre : Text
  metadata : Text
  deriving DecidableEq, Repr, Inhabited

def segmentAfterStop (isSegmentByte : UInt8 → Bool) : Text → Text × Text
  | 46 :: rest =>
    match rest.span isSegmentByte with
    | ([], _) => ([], 46 :: rest)
    | parts => parts
  | t => ([], t)

/-- Reads the parts at the front of a text; a leading `v` is passed over. -/
def parts? (isSegmentByte : UInt8 → Bool) (t : Text) : Option (Parts × Text) :=
  let t := if t.head? = some (Text.byte 'v') then t.tail else t
  match t.span isSegmentByte with
  | ([], _) => none
  | (major, t) =>
    let (minor, t) := segmentAfterStop isSegmentByte t
    let (patch, t) := if minor.isEmpty then ([], t) else segmentAfterStop isSegmentByte t
    let (pre, t) := marked (Text.byte '-') t
    let (metadata, t) := marked (Text.byte '+') t
    some (⟨major, minor, patch, pre, metadata⟩, t)

def segment (digits : Text) : Except VersionError Nat :=
  if digits.isEmpty then .ok 0
  else match digits.toNat? with
    | none => .error .invalid
    | some n => if n < 0x10000000000000000 then .ok n else .error (.outOfRange digits)

/-- A pre-release that is a number has no leading zero. -/
def hasLeadingZero (pre : Text) : Bool :=
  (pre.split (Text.byte '.')).any fun part =>
    part.all Text.isDigit && 1 < part.length && part.head? = some (Text.byte '0')

def ofParts (p : Parts) : Except VersionError Version := do
  let major ← segment p.major
  let minor ← segment p.minor
  let patch ← segment p.patch
  if hasLeadingZero p.pre then .error .leadingZero
  else .ok { major, minor, patch, pre := p.pre, metadata := p.metadata }

def parse (t : Text) : Except VersionError Version :=
  match parts? Text.isDigit t with
  | some (p, []) => ofParts p
  | _ => .error .invalid

/-! Order. -/

/-- A number of at most 64 bits; longer ones count as words. -/
def number? (t : Text) : Option Nat :=
  t.toNat?.filter (· < 0x10000000000000000)

/-- Numbers come before words, and a missing part before any other. -/
def comparePart (s t : Text) : Ordering :=
  if s = t then .eq
  else if s.isEmpty then .lt
  else if t.isEmpty then .gt
  else match number? s, number? t with
    | none, none => if t.lt s then .gt else .lt
    | some _, none => .lt
    | none, some _ => .gt
    | some m, some n => if n < m then .gt else .lt

def compareParts : List Text → List Text → Ordering
  | [], [] => .eq
  | s :: ss, [] => (comparePart s []).then (compareParts ss [])
  | [], t :: ts => (comparePart [] t).then (compareParts [] ts)
  | s :: ss, t :: ts => (comparePart s t).then (compareParts ss ts)

def comparePre (s t : Text) : Ordering :=
  compareParts (s.split (Text.byte '.')) (t.split (Text.byte '.'))

/-- Metadata does not count; a release comes after its pre-releases. -/
def compare (v w : Version) : Ordering :=
  (Ord.compare v.major w.major).then <| (Ord.compare v.minor w.minor).then <|
    (Ord.compare v.patch w.patch).then <|
      match v.pre.isEmpty, w.pre.isEmpty with
      | true, true => .eq
      | true, false => .gt
      | false, true => .lt
      | false, false => comparePre v.pre w.pre

end Version

end MiddleEnd
