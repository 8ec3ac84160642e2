import MiddleEnd.Text.HexTable

/-!
Sets of character numbers written as ranges of hexadecimal numbers, each as its distance from the
one before: `41-19 5` holds the capital letters and the underscore.
-/

namespace MiddleEnd

abbrev Ranges := Array (Nat × Nat)

namespace Ranges

/-- A number behind a dash closes the range that the number before it opened. -/
def add (ranges : Ranges) : Char × Nat → Ranges
  | ('-', n) => ranges.modify (ranges.size - 1) fun (low, high) => (low, high + n)
  | (_, n) =>
    let low := (ranges.back?.map Prod.snd).getD 0 + n
    ranges.push (low, low)

def ofString (table : String) : Ranges :=
  (HexTable.entries table).foldl add #[]

def contains (ranges : Ranges) (n : Nat) : Bool :=
  ranges.any fun (low, high) => low ≤ n && n ≤ high

end Ranges

end MiddleEnd
