import MiddleEnd.Syntax.Tree

/-!
Numbering the nodes of a tree while it is put together: children first, from one upwards.
-/

namespace MiddleEnd

/-- The state is the last number given out. -/
abbrev Numbering := StateM NodeId

namespace Numbering

/-- A number given by hand is kept and leaves the count alone; otherwise the next one is taken. -/
def number (given : Option NodeId) : Numbering NodeId :=
  match given with
  | some id => pure id
  | none => modifyGet fun last => (last + 1, last + 1)

def build {α : Type} (construction : Numbering α) : α :=
  (construction.run 0).1

end Numbering

end MiddleEnd
