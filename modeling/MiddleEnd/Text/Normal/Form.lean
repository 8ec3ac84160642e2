import MiddleEnd.Text.Normal.Table
import MiddleEnd.Text.Utf8
import Std.Data.HashMap

/-!
Canonical composition: characters are decomposed, marks put in canonical order, and what can be
composed is composed again. A byte that is no character is a base that composes with nothing.
-/

namespace MiddleEnd.Text.Normal

def decompositionMap : Std.HashMap Nat (List Nat) :=
  decompositions.foldl (fun m d => m.insert d.char d.parts) ∅

/-- Only the low sixteen bits of a character count, so one beyond the first plane composes like
another. -/
def compositionMap : Std.HashMap (Nat × Nat) Nat :=
  decompositions.foldl (fun m d => match d.composed, d.parts with
    | true, [first, second] => m.insert (first % 0x10000, second % 0x10000) d.char
    | _, _ => m) ∅

def backwardMap : Std.HashMap Nat Unit :=
  decompositions.foldl (fun m d => match d.composed, d.parts with
    | true, [_, second] => m.insert second ()
    | _, _ => m) ∅

def combiningClass (c : Nat) : Nat :=
  if c < 0x300 then 0
  else match classRanges.find? fun r => r.low ≤ c && c ≤ r.high with
    | some r => r.combiningClass
    | none => 0

/-! Syllables are composed by rule from a leading consonant, a vowel and a trailing consonant. -/

def syllableBase : Nat := 0xAC00

def isSyllable (c : Nat) : Bool := syllableBase ≤ c && c < syllableBase + 11172

def isVowel (c : Nat) : Bool := 0x1161 ≤ c && c ≤ 0x1175

def isTrailing (c : Nat) : Bool := 0x11A8 ≤ c && c ≤ 0x11C2

def syllableParts (c : Nat) : List Nat :=
  let s := c - syllableBase
  let lead := 0x1100 + s / 588
  let vowel := 0x1161 + s % 588 / 28
  if s % 28 = 0 then [lead, vowel] else [lead, vowel, 0x11A7 + s % 28]

def composeSyllable? (first second : Nat) : Option Nat :=
  if 0x1100 ≤ first && first ≤ 0x1112 && isVowel second then
    some (syllableBase + ((first - 0x1100) * 21 + (second - 0x1161)) * 28)
  else if isSyllable first && (first - syllableBase) % 28 = 0 && isTrailing second then
    some (first + (second - 0x11A7))
  else none

/-- The full decomposition; no chain of decompositions has more than four steps. -/
def decomposeWithin : (fuel : Nat) → Nat → List Nat
  | 0, c => [c]
  | fuel + 1, c =>
    match decompositionMap[c]? with
    | none => [c]
    | some parts => parts.flatMap (decomposeWithin fuel)

def decompose (c : Nat) : List Nat :=
  if c < 0xC0 then [c] else if isSyllable c then syllableParts c else decomposeWithin 4 c

def compose? (first second : Nat) : Option Nat :=
  compositionMap[(first % 0x10000, second % 0x10000)]?

def attaches (c : Nat) : Bool :=
  combiningClass c ≠ 0 || isVowel c || isTrailing c || backwardMap.contains c

/-- The marks that a character starts with, in its compatible form if that has more. -/
def leadingMarks (c : Nat) : Nat :=
  if markForms.contains c then 1 else ((decompose c).takeWhile attaches).length

def trailingMarks (c : Nat) : Nat :=
  if markForms.contains c || onceMarkedForms.contains c then 1
  else if twiceMarkedForms.contains c then 2
  else ((decompose c).reverse.takeWhile attaches).length

def decomposeRune : Rune → List Rune
  | .char c => (decompose c.toNat).map fun part => .char (Char.ofNat part)
  | .stray b => [.stray b]

/-- Puts a mark behind the marks of lower or equal class at the end of a reversed sequence. -/
def insertOrdered (r : Rune) : (reversed : List Rune) → List Rune
  | [] => [r]
  | last :: rest =>
    if combiningClass r.code ≠ 0 && combiningClass r.code < combiningClass last.code then
      last :: insertOrdered r rest
    else r :: last :: rest

def ordered (rs : List Rune) : List Rune :=
  (rs.foldl (fun reversed r => insertOrdered r reversed) []).reverse

/-- The base that later ones may compose with, those kept behind it and those before it, both in
reverse. -/
structure Composing where
  before : List Rune
  base : Rune
  kept : List Rune
  syllables : Bool

namespace Composing

def start (base : Rune) : Composing := ⟨[], base, [], false⟩

def toList (s : Composing) : List Rune :=
  (s.kept ++ s.base :: s.before).reverse

def rebased (s : Composing) : Composing :=
  match s.kept with
  | [] => s
  | last :: rest =>
    if combiningClass last.code = 0 then
      { s with before := rest ++ s.base :: s.before, base := last, kept := [] }
    else s

/-- One is blocked from the base by a kept one of the same or a higher class. -/
def blocked (s : Composing) (r : Rune) : Bool :=
  match s.kept with
  | [] => false
  | last :: _ => combiningClass last.code ≥ combiningClass r.code

def keep (s : Composing) (r : Rune) : Composing := { s with kept := r :: s.kept }

def join (s : Composing) (compose? : Nat → Nat → Option Nat) (r : Rune) : Composing :=
  match if s.blocked r then none else compose? s.base.code r.code with
  | some c => { s with base := .char (Char.ofNat c) }
  | none => s.keep r

/-- The base is looked for anew only by one that may compose with it. -/
def step (s : Composing) (r : Rune) : Composing :=
  if s.syllables || isVowel r.code || isTrailing r.code then
    { s with syllables := true }.rebased.join composeSyllable? r
  else if backwardMap.contains r.code then s.rebased.join compose? r
  else s.keep r

end Composing

/-- Composes a piece from its first on, be that a mark or not. -/
def composed : List Rune → List Rune
  | [] => []
  | base :: rest => (rest.foldl Composing.step (.start base)).toList

/-- Cuts before each that brings no marks along. The piece under way is reversed. -/
def piecesFrom : (piece : List Rune) → List Rune → List (List Rune)
  | piece, [] => [piece.reverse]
  | piece, r :: rest =>
    if leadingMarks r.code = 0 then piece.reverse :: piecesFrom [r] rest
    else piecesFrom (r :: piece) rest

def normalizeSegment (rs : List Rune) : List Rune :=
  (piecesFrom [] (rs.flatMap decomposeRune)).flatMap fun piece => composed (ordered piece)

def maxMarks : Nat := 30

def graphemeJoiner : Rune := .char (Char.ofNat 0x34F)

/-- Cuts text into segments, a new one before each that starts with no mark. -/
def segmentsFrom : (count : Nat) → (segment : List Rune) → List Rune → List (List Rune)
  | _, segment, [] => [segment.reverse]
  | count, segment, r :: rest =>
    let lead := leadingMarks r.code
    if lead = 0 then segment.reverse :: segmentsFrom (trailingMarks r.code) [r] rest
    else if count + lead > maxMarks then
      (graphemeJoiner :: segment).reverse :: segmentsFrom lead [r] rest
    else segmentsFrom (count + lead) (r :: segment) rest

end MiddleEnd.Text.Normal

namespace MiddleEnd.Text

/-- Parts a text where it ends within a character of four bytes. -/
def cutShort (t : Text) : Text × Text :=
  if t.isUtf8 then (t, [])
  else
    let (front, back) := t.splitAt (t.length - 3)
    let (more, rest) := back.span fun b => b < 0xF0 || 0xF7 < b
    (front ++ more, rest)

/-- A character that is cut short stays as it is, with all behind it. -/
def normalize (t : Text) : Text :=
  if t.all (· < 0x80) then t
  else
    let (whole, rest) := t.cutShort
    let segments := Normal.segmentsFrom 0 [] whole.runes
    (segments.flatMap Normal.normalizeSegment).flatMap Rune.bytes ++ rest

end MiddleEnd.Text
