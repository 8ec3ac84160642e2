import MiddleEnd.Trace.Event

/-!
The latest events in a ring of slots. Once every slot is taken, a new event takes the place of the
oldest.
-/

namespace MiddleEnd.Trace

/-- `next` is the slot to be written next. Slots that were never written are not there yet. -/
structure Ring where
  level : Level
  capacity : Nat
  slots : Array Event
  next : Nat
  deriving Repr, Inhabited

namespace Ring

def defaultCapacity : Nat := 4096

def start (capacity : Int) (level : Level) : Ring where
  level
  capacity := if capacity ≤ 0 then defaultCapacity else capacity.toNat
  slots := #[]
  next := 0

def store (r : Ring) (e : Event) : Ring :=
  { r with
    slots := if r.next < r.slots.size then r.slots.setIfInBounds r.next e else r.slots.push e
    next := (r.next + 1) % r.capacity }

def emit (r : Ring) (e : Event) : Ring :=
  if r.level.records e.scope then r.store e else r

def toList (r : Ring) : List Event :=
  if r.slots.size < r.capacity then r.slots.toList
  else r.slots.toList.drop r.next ++ r.slots.toList.take r.next

def dump (r : Ring) (format : Format) : Text :=
  match r.toList with
  | [] => []
  | oldest :: events => (oldest :: events).flatMap fun e => e.print format oldest.time

end Ring

end MiddleEnd.Trace
