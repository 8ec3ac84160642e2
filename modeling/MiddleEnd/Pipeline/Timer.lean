import MiddleEnd.Decimal.Fixed
import MiddleEnd.Text.Width

/-!
The time that phases took.
-/

namespace MiddleEnd.Pipeline

structure Phase where
  name : Text
  note : Text := []
  nanoseconds : Nat := 0
  deriving DecidableEq, Repr, Inhabited

abbrev Timer := List Phase

namespace Timer

def start (t : Timer) (name : Text) : Timer × Nat :=
  (t ++ [{ name := name }], t.length)

def finish (t : Timer) (position : Nat) (note : Text) : Timer :=
  t.modify position fun p => { p with note }

def milliseconds (nanoseconds : Nat) : Text :=
  .concat [.padLeft 9 (Decimal.fixed 2 nanoseconds 1000000), " ms"]

def total (t : Timer) : Nat :=
  (t.map Phase.nanoseconds).foldr (· + ·) 0

def summary (t : Timer) : Text :=
  let width := t.foldl (fun w p => max w p.name.width) 5
  let row (name : Text) (nanoseconds : Nat) (note : Text) : Text :=
    .concat ["  ", name.padToWidth width, " ", milliseconds nanoseconds, note]
  let rows : List Text := t.map fun p =>
    row p.name p.nanoseconds (if p.note.isEmpty then [] else .concat ["  // ", p.note])
  .lines (Text.ofString "timings:" :: rows ++ [row "total" t.total []])

end Timer

end MiddleEnd.Pipeline
