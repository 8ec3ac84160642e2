import MiddleEnd.Trace.Ring

/-!
A ring shows the latest of the events that its level records.
-/

namespace MiddleEnd.Trace

open List

variable {r : Ring} {e : Event} {history : List Event}

/-- What is done with a ring; a snapshot is a look at its events. -/
inductive Call where
  | emit (e : Event)
  | snapshot

def Call.event? : Call → Option Event
  | .emit e => some e
  | .snapshot => none

namespace Ring

/-- The ring after a call. To look at the events changes nothing. -/
def perform (r : Ring) : Call → Ring
  | .emit e => r.emit e
  | .snapshot => r

/-- The slots are filled one after the other. Behind the last the first is next again. -/
structure Ordered (r : Ring) : Prop where
  next_lt : r.next < r.capacity
  size_le : r.slots.size ≤ r.capacity
  filling : r.slots.size < r.capacity → r.next = r.slots.size

theorem Ordered.start (capacity : Int) (level : Level) : (start capacity level).Ordered := by
  have roomy : 0 < (Ring.start capacity level).capacity := by
    dsimp only [Ring.start]
    split
    · exact Nat.zero_lt_succ _
    · omega
  exact ⟨roomy, Nat.zero_le _, fun _ => rfl⟩

/-- From the next slot round to it again. While slots are filled, there is nothing behind it. -/
theorem Ordered.toList_eq (ordered : r.Ordered) :
    r.toList = r.slots.toList.drop r.next ++ r.slots.toList.take r.next := by
  rw [toList]
  split
  · next room =>
    have last : r.slots.toList.length ≤ r.next := Nat.le_of_eq (ordered.filling room).symm
    rw [drop_of_length_le last, take_of_length_le last, nil_append]
  · rfl

theorem Ordered.length_toList (ordered : r.Ordered) : r.toList.length = r.slots.size := by
  rw [ordered.toList_eq, length_append, Nat.add_comm, ← length_append,
    take_append_drop, Array.length_toList]

theorem Ordered.next_le (ordered : r.Ordered) : r.next ≤ r.slots.size := by
  by_cases room : r.slots.size < r.capacity
  · exact Nat.le_of_eq (ordered.filling room)
  · exact Nat.le_trans (Nat.le_of_lt ordered.next_lt) (Nat.le_of_not_lt room)

/-- The event is put between what stands in front of the next slot and what stands behind it. -/
theorem slots_store (r : Ring) (e : Event) :
    (r.store e).slots.toList =
      r.slots.toList.take r.next ++ e :: r.slots.toList.drop (r.next + 1) := by
  dsimp only [store]
  split
  · next taken =>
    rw [Array.toList_setIfInBounds, set_eq_take_append_cons_drop, Array.length_toList, if_pos taken]
  · next free =>
    have last : r.slots.toList.length ≤ r.next := Nat.le_of_not_lt free
    rw [Array.toList_push, take_of_length_le last, drop_of_length_le (by omega)]

theorem Ordered.store (ordered : r.Ordered) (e : Event) : (r.store e).Ordered := by
  have next_lt := ordered.next_lt
  have size_le := ordered.size_le
  have filling := ordered.filling
  have size : (r.store e).slots.size = max r.slots.size (r.next + 1) := by
    have next_le := ordered.next_le
    rw [← Array.length_toList, slots_store]
    simp only [length_append, length_take, length_cons, length_drop, Array.length_toList]
    omega
  have next : (r.store e).next = (r.next + 1) % r.capacity := rfl
  have capacity : (r.store e).capacity = r.capacity := rfl
  constructor
  · exact Nat.mod_lt _ (by omega)
  · omega
  · intro room
    rw [next, Nat.mod_eq_of_lt (by omega)]
    omega

theorem Ordered.toList_store_eq (ordered : r.Ordered) (e : Event) :
    (r.store e).toList =
      r.slots.toList.drop (r.next + 1) ++ (r.slots.toList.take r.next ++ [e]) := by
  have next_lt := ordered.next_lt
  have front : (r.slots.toList.take r.next ++ [e]).length = r.next + 1 := by
    simpa using Nat.min_eq_left ordered.next_le
  have slots : (r.store e).slots.toList =
      (r.slots.toList.take r.next ++ [e]) ++ r.slots.toList.drop (r.next + 1) := by
    rw [slots_store, append_assoc, singleton_append]
  have next : (r.store e).next = (r.next + 1) % r.capacity := rfl
  rw [(ordered.store e).toList_eq, slots, next]
  by_cases last : r.next + 1 = r.capacity
  · have behind : r.slots.toList.drop (r.next + 1) = [] :=
      drop_of_length_le (last ▸ ordered.size_le)
    rw [last, Nat.mod_self, ← last, behind]
    simp only [append_nil, drop_zero, take_zero, nil_append]
  · rw [Nat.mod_eq_of_lt (by omega), drop_left' front, take_left' front]

/-- The new event is the last. Where no slot was free, the oldest is gone. -/
theorem Ordered.toList_store (ordered : r.Ordered) (e : Event) :
    (r.store e).toList = (r.toList ++ [e]).drop (r.slots.size + 1 - r.capacity) := by
  have next_lt := ordered.next_lt
  have size_le := ordered.size_le
  rw [ordered.toList_store_eq e, ordered.toList_eq, append_assoc]
  by_cases room : r.slots.size < r.capacity
  · have last : r.slots.toList.length ≤ r.next := Nat.le_of_eq (ordered.filling room).symm
    rw [show r.slots.size + 1 - r.capacity = 0 by omega, drop_zero,
      drop_of_length_le last, drop_of_length_le (Nat.le_succ_of_le last)]
  · have some : 1 ≤ (r.slots.toList.drop r.next).length := by
      rw [length_drop, Array.length_toList]
      omega
    rw [show r.slots.size + 1 - r.capacity = 1 by omega, drop_append_of_le_length some,
      drop_drop]

/-- The ring shows the latest of these events. -/
structure Shows (r : Ring) (history : List Event) : Prop extends Ordered r where
  shown : r.toList = history.drop (history.length - r.capacity)

theorem Shows.store (shows : r.Shows history) (e : Event) : (r.store e).Shows (history ++ [e]) where
  toOrdered := shows.toOrdered.store e
  shown := by
    have size : r.slots.size = history.length - (history.length - r.capacity) := by
      rw [← shows.length_toList, shows.shown, length_drop]
    have capacity : (r.store e).capacity = r.capacity := rfl
    rw [shows.toList_store e, shows.shown,
      ← drop_append_of_le_length (Nat.sub_le history.length r.capacity), drop_drop, size,
      capacity, length_append, length_singleton]
    congr 1
    omega

theorem Shows.perform (shows : r.Shows history) (call : Call) :
    (r.perform call).Shows
      (history ++ call.event?.toList.filter fun e => r.level.records e.scope) := by
  cases call with
  | snapshot =>
    rw [Call.event?, Option.toList_none, filter_nil, append_nil]
    exact shows
  | emit e =>
    dsimp only [Ring.perform, emit, Call.event?, Option.toList_some]
    rw [filter_cons]
    split
    · exact shows.store e
    · rwa [filter_nil, append_nil]

theorem perform_fixed (r : Ring) (call : Call) :
    (r.perform call).level = r.level ∧ (r.perform call).capacity = r.capacity := by
  cases call with
  | snapshot => exact ⟨rfl, rfl⟩
  | emit e =>
    dsimp only [Ring.perform, emit]
    split <;> exact ⟨rfl, rfl⟩

theorem Shows.performAll (shows : r.Shows history) (calls : List Call) :
    (calls.foldl Ring.perform r).Shows
      (history ++ (calls.filterMap Call.event?).filter fun e => r.level.records e.scope) ∧
    (calls.foldl Ring.perform r).capacity = r.capacity := by
  induction calls generalizing r history with
  | nil => simpa using shows
  | cons call calls ih =>
    obtain ⟨level, capacity⟩ := perform_fixed r call
    have later := ih (shows.perform call)
    rw [level, capacity, append_assoc, ← filter_append] at later
    rw [foldl_cons, filterMap_cons]
    cases call <;> exact later

theorem Shows.start (capacity : Int) (level : Level) : (start capacity level).Shows [] where
  toOrdered := .start capacity level
  shown := by rw [(Ordered.start capacity level).toList_eq, drop_nil]; rfl

end Ring

/-- After any emissions and snapshots, a snapshot shows the latest of the events that the level
records, as many as the capacity allows, the oldest of them first. -/
theorem snapshot_shows_latest (capacity : Int) (level : Level) (calls : List Call) :
    let slots := if capacity ≤ 0 then 4096 else capacity.toNat
    let recorded := (calls.filterMap Call.event?).filter fun e => level.records e.scope
    (calls.foldl Ring.perform (Ring.start capacity level)).toList =
      recorded.drop (recorded.length - min recorded.length slots) := by
  intro slots recorded
  obtain ⟨shows, same⟩ := (Ring.Shows.start capacity level).performAll calls
  have latest := shows.shown
  rw [same, nil_append] at latest
  calc
    _ = recorded.drop (recorded.length - slots) := latest
    _ = recorded.drop (recorded.length - min recorded.length slots) :=
      congrArg (recorded.drop ·) (by omega)

end MiddleEnd.Trace
