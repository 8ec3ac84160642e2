import MiddleEnd.Text.Basic

/-!
Plain data as the interchange formats see it, before any of it is read as a tree of the language.
-/

namespace MiddleEnd

/-- A list keeps, besides its items, the elements that an earlier and longer value of the same list
left behind. -/
inductive Datum where
  | number (n : Int)
  | flag (b : Bool)
  | text (t : Text)
  | absent
  | record (fields : List Datum)
  | list (items spare : List Datum)
  deriving Repr, BEq, Inhabited

namespace Datum

mutual
/-- Forgets the elements beyond the end of every list. -/
def settle : Datum → Datum
  | .number n => .number n
  | .flag b => .flag b
  | .text t => .text t
  | .absent => .absent
  | .record fields => .record (settleAll fields)
  | .list items _ => .list (settleAll items) []
def settleAll : List Datum → List Datum
  | [] => []
  | field :: fields => field.settle :: settleAll fields
end

end Datum

end MiddleEnd
