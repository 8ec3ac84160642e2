import MiddleEnd.Text.Utf8

/-!
Patterns for file names: a star stands for any text without slashes, a question mark for one
character, brackets for one of a class.
-/

namespace MiddleEnd.Glob

inductive Atom where
  | byte (b : UInt8)
  | any
  | oneOf (negated : Bool) (ranges : List (Nat × Nat))
  deriving DecidableEq, Repr, Inhabited

structure Chunk where
  star : Bool
  atoms : List Atom
  deriving DecidableEq, Repr, Inhabited

abbrev Pattern := List Chunk

/-! Reading. -/

def leading (t : Text) : Nat × Nat :=
  match Text.leadingChar? t with
  | some (c, width) => (c.toNat, width)
  | none => (0xFFFD, 1)

def rangeEnd? (t : Text) : Option (Nat × Text) :=
  let unescaped? : Option Text :=
    match t with
    | [] => none
    | 45 :: _ | 93 :: _ => none
    | 92 :: rest => some rest
    | t => some t
  match unescaped? with
  | none | some [] => none
  | some t =>
    match Text.leadingChar? t with
    | none => none
    | some (c, width) =>
      match t.drop width with
      | [] => none
      | rest => some (c.toNat, rest)

/-- The ranges up to the closing bracket; there is at least one. -/
def ranges? : (fuel : Nat) → (found : List (Nat × Nat)) → Text → Option (List (Nat × Nat) × Text)
  | 0, _, _ => none
  | fuel + 1, found, t =>
    match t, found with
    | 93 :: rest, _ :: _ => some (found, rest)
    | t, found =>
      match rangeEnd? t with
      | none => none
      | some (low, 45 :: rest) =>
        match rangeEnd? rest with
        | none => none
        | some (high, rest) => ranges? fuel (found ++ [(low, high)]) rest
      | some (low, rest) => ranges? fuel (found ++ [(low, low)]) rest

inductive Part where
  | star
  | atom (a : Atom)
  deriving DecidableEq, Repr, Inhabited

def parts? : (fuel : Nat) → Text → Option (List Part)
  | _, [] => some []
  | 0, _ :: _ => none
  | fuel + 1, 42 :: t => (parts? fuel t).map (.star :: ·)
  | fuel + 1, 63 :: t => (parts? fuel t).map (.atom .any :: ·)
  | _ + 1, [92] => none
  | fuel + 1, 92 :: b :: t => (parts? fuel t).map (.atom (.byte b) :: ·)
  | fuel + 1, 91 :: t => do
    let negated := t.head? = some 94
    let (ranges, rest) ← ranges? (t.length + 1) [] (if negated then t.tail else t)
    let parts ← parts? fuel rest
    some (.atom (.oneOf negated ranges) :: parts)
  | fuel + 1, b :: t => (parts? fuel t).map (.atom (.byte b) :: ·)

def chunks : List Part → Pattern
  | [] => []
  | .star :: parts =>
    match chunks parts with
    | ⟨false, atoms⟩ :: rest => ⟨true, atoms⟩ :: rest
    | ⟨true, atoms⟩ :: rest => ⟨true, atoms⟩ :: rest
    | [] => [⟨true, []⟩]
  | .atom a :: parts =>
    match chunks parts with
    | ⟨false, atoms⟩ :: rest => ⟨false, a :: atoms⟩ :: rest
    | rest => ⟨false, [a]⟩ :: rest

def parse? (t : Text) : Option Pattern :=
  (parts? t.length t).map chunks

/-! Matching. -/

def matchAtoms : List Atom → Text → Option Text
  | [], name => some name
  | _ :: _, [] => none
  | .byte b :: atoms, c :: name => if b = c then matchAtoms atoms name else none
  | .any :: atoms, c :: name =>
    if c = 47 then none else matchAtoms atoms ((c :: name).drop (leading (c :: name)).2)
  | .oneOf negated ranges :: atoms, c :: name =>
    let (code, width) := leading (c :: name)
    if (ranges.any fun (low, high) => low ≤ code && code ≤ high) != negated then
      matchAtoms atoms ((c :: name).drop width)
    else none

/-- The first place where the atoms match; behind a star it may lie further on. -/
def firstMatch (star last : Bool) (atoms : List Atom) : Text → Option Text
  | [] => matchAtoms atoms []
  | b :: name =>
    let here := (matchAtoms atoms (b :: name)).filter fun rest => rest.isEmpty || !last
    match here with
    | some rest => some rest
    | none => if star && b != 47 then firstMatch star last atoms name else none

def «matches» : Pattern → Text → Bool
  | [], name => name.isEmpty
  | [⟨true, []⟩], name => !name.contains 47
  | chunk :: rest, name =>
    match firstMatch chunk.star rest.isEmpty chunk.atoms name with
    | some name => «matches» rest name
    | none => false

def hasMeta (t : Text) : Bool :=
  t.any fun b => b = 42 || b = 63 || b = 91 || b = 92

end MiddleEnd.Glob
