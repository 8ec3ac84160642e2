/-!
Tables of hexadecimal numbers. Every character that is no digit separates, and the one right before
a number says what the number is for. A character beyond ASCII is itself the number.
-/

namespace MiddleEnd.HexTable

def digit? (c : Char) : Option Nat :=
  if '0' ≤ c && c ≤ '9' then some (c.toNat - 48)
  else if 'a' ≤ c && c ≤ 'f' then some (c.toNat - 87)
  else none

def own? (c : Char) : Option Nat := if c.toNat < 128 then none else some c.toNat

/-- The numbers of a table with the separator before each; `pending` is the number being read. -/
def entriesFrom : (separator : Char) → (pending : Option Nat) → List Char → List (Char × Nat)
  | separator, some n, [] => [(separator, n)]
  | _, none, [] => []
  | separator, some n, c :: rest =>
    match digit? c with
    | some d => entriesFrom separator (some (16 * n + d)) rest
    | none => (separator, n) :: entriesFrom c (own? c) rest
  | separator, none, c :: rest =>
    match digit? c with
    | some d => entriesFrom separator (some d) rest
    | none => entriesFrom c (own? c) rest

def entries (table : String) : List (Char × Nat) :=
  entriesFrom ' ' none table.toList

end MiddleEnd.HexTable
