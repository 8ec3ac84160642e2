import MiddleEnd.Version.Basic

/-!
Constraints on versions: alternatives of comparisons that must all hold. A segment may be a wildcard
or left out.
-/

namespace MiddleEnd.Version

inductive Comparator where
  | equal
  | notEqual
  | greater
  | less
  | greaterEqual
  | lessEqual
  | tilde
  | caret
  deriving DecidableEq, Repr, Inhabited

/-- The spellings of comparators, longer ones before those they start with. -/
def comparators : List (Text × Comparator) :=
  [("!=", .notEqual), (">=", .greaterEqual), ("=>", .greaterEqual), ("<=", .lessEqual),
    ("=<", .lessEqual), ("~>", .tilde), ("=", .equal), (">", .greater), ("<", .less), ("~", .tilde),
    ("^", .caret)]

/-- How much of a version a constraint says: all of it, the first two segments, the first one, or
none. -/
inductive Precision where
  | full
  | minor
  | major
  | any
  deriving DecidableEq, Repr, Inhabited

structure Comparison where
  comparator : Comparator
  version : Version
  precision : Precision
  deriving DecidableEq, Repr, Inhabited

inductive ConstraintError where
  | improper (text : Text)
  | unreadable
  deriving DecidableEq, Repr, Inhabited

def ConstraintError.message : ConstraintError → Text
  | .improper text => .concat ["improper constraint: ", text]
  | .unreadable => "constraint Parser Error"

/-! Reading. -/

def isWildByte (b : UInt8) : Bool :=
  Text.isDigit b || b = Text.byte '|' || b = Text.byte 'x' || b = Text.byte 'X' ||
    b = Text.byte '*'

def isWildcard (t : Text) : Bool :=
  t == Text.ofString "x" || t == Text.ofString "X" || t == Text.ofString "*"

def isGap (b : UInt8) : Bool :=
  b = 32 || b = 9 || b = 10 || b = 12 || b = 13

def skipGap (t : Text) : Text := t.dropWhile isGap

/-- The comparator at the front; without one, equality is meant. -/
def comparator (t : Text) : Comparator × Text :=
  (comparators.findSome? fun (spelling, c) => (Text.after? spelling t).map fun t => (c, t)).getD
    (.equal, t)

def comparison (c : Comparator) (p : Parts) : Except ConstraintError Comparison :=
  let isOpen (segment : Text) : Bool := isWildcard segment || segment.isEmpty
  let (precision, parts) :=
    if isOpen p.major then (Precision.any, { p with major := [], minor := [], patch := [] })
    else if isOpen p.minor then (.major, { p with minor := [], patch := [] })
    else if isOpen p.patch then (.minor, { p with patch := [] })
    else (.full, p)
  match ofParts parts with
  | .ok version => .ok ⟨c, version, precision⟩
  | .error _ => .error .unreadable

def comparisons? : (fuel : Nat) → Text → Option (List (Comparator × Parts))
  | 0, _ => none
  | fuel + 1, t => do
    let (c, t) := comparator (skipGap t)
    let (p, t) ← parts? isWildByte (skipGap t)
    let rest := skipGap t
    match rest with
    | [] => some [(c, p)]
    | 44 :: rest =>
      let others ← comparisons? fuel rest
      some ((c, p) :: others)
    | _ =>
      if rest.length < t.length then
        let others ← comparisons? fuel rest
        some ((c, p) :: others)
      else none

def alternative (t : Text) : Except ConstraintError (List Comparison) :=
  match comparisons? (t.length + 1) t with
  | none => .error (.improper t)
  | some cs => cs.mapM fun (c, p) => comparison c p

/-! Ranges. -/

def written? (t : Text) : Option (Text × Text) :=
  (parts? isWildByte t).map fun (_, rest) => (t.take (t.length - rest.length), rest)

def range? (t : Text) : Option (Text × Text × Text) := do
  let (low, t) ← written? (skipGap t)
  let behindLow := skipGap t
  if behindLow.length = t.length then none
  else match behindLow with
    | 45 :: t =>
      let behindDash := skipGap t
      if behindDash.length = t.length then none
      else
        let (high, t) ← written? behindDash
        some (low, high, skipGap t)
    | _ => none

def rangesOf : (fuel : Nat) → Text → List (Text × Text)
  | 0, _ => []
  | _ + 1, [] => []
  | fuel + 1, b :: t =>
    match range? (b :: t) with
    | some (low, high, rest) =>
      let written := (b :: t).take (t.length + 1 - rest.length)
      (written, Text.concat [">= ", low, ", <= ", high, " "]) :: rangesOf fuel rest
    | none => rangesOf fuel t

/-- Writes every range as a pair of comparisons, each where its text is found first. -/
def expandRanges (t : Text) : Text :=
  (rangesOf (t.length + 1) t).foldl (fun t (written, pair) => Text.replaceFirst written pair t) t

def splitBars : Text → List Text
  | 124 :: 124 :: rest => [] :: splitBars rest
  | [] => [[]]
  | b :: rest =>
    match splitBars rest with
    | [] => [[b]]
    | piece :: pieces => (b :: piece) :: pieces

/-- Alternatives, of which one must hold in all its comparisons. -/
structure Constraint where
  alternatives : List (List Comparison)
  deriving DecidableEq, Repr, Inhabited

def Constraint.parse (t : Text) : Except ConstraintError Constraint := do
  let alternatives ← (splitBars (expandRanges t)).mapM alternative
  .ok ⟨alternatives⟩

/-! Checking. -/

namespace Comparison

/-- A pre-release satisfies only constraints that name one. -/
def excludesPre (c : Comparison) (v : Version) : Bool :=
  !v.pre.isEmpty && c.version.pre.isEmpty

def isPartial (c : Comparison) : Bool := c.precision != .full

def notEqual (c : Comparison) (v : Version) : Bool :=
  let w := c.version
  let differs := v.compare w != .eq
  if !c.isPartial then differs
  else if c.excludesPre v then false
  else if w.major ≠ v.major then true
  else match c.precision with
    | .major => false
    | .minor =>
      if w.minor ≠ v.minor then true
      else if v.pre.isEmpty && w.pre.isEmpty then false
      else comparePre v.pre w.pre != .eq
    | _ => differs

def greater (c : Comparison) (v : Version) : Bool :=
  let w := c.version
  if w.major < v.major && c.isPartial then true
  else if v.major < w.major && c.isPartial then false
  else match c.precision with
    | .major => false
    | .minor => w.minor < v.minor
    | _ => v.compare w == .gt

def lessEqual (c : Comparison) (v : Version) : Bool :=
  let w := c.version
  if !c.isPartial then v.compare w != .gt
  else if w.major < v.major then false
  else !(v.major == w.major && w.minor < v.minor && c.precision != .major)

/-- Patches of the same minor release; the zero version lets everything pass. -/
def tilde (c : Comparison) (v : Version) : Bool :=
  let w := c.version
  if v.compare w == .lt then false
  else if w.major = 0 && w.minor = 0 && w.patch = 0 && c.precision != .major &&
      c.precision != .minor then true
  else w.major = v.major && (w.minor = v.minor || c.precision = .major)

/-- Releases that keep the first segment that is not zero. -/
def caret (c : Comparison) (v : Version) : Bool :=
  let w := c.version
  if v.compare w == .lt then false
  else if 0 < w.major || c.precision = .major then v.major = w.major
  else if 0 < v.major then false
  else if 0 < w.minor || c.precision = .minor then v.minor = w.minor
  else if 0 < v.minor then false
  else w.patch = v.patch

def holds (c : Comparison) (v : Version) : Bool :=
  match c.comparator with
  | .notEqual => c.notEqual v
  | comparator =>
    !c.excludesPre v && match comparator with
      | .equal => if c.isPartial then c.tilde v else v.compare c.version == .eq
      | .greater => c.greater v
      | .less => v.compare c.version == .lt
      | .greaterEqual => v.compare c.version != .lt
      | .lessEqual => c.lessEqual v
      | .tilde => c.tilde v
      | .caret => c.caret v
      | .notEqual => false

end Comparison

def Constraint.holds (c : Constraint) (v : Version) : Bool :=
  c.alternatives.any fun cs => cs.all fun c => c.holds v

end MiddleEnd.Version
