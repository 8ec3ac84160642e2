import MiddleEnd.Proofs.Lowering.Runs
import MiddleEnd.Proofs.Scoping.Extension

/-!
What lowering sees of scopes: the open scopes, the names visible in each, and their bindings,
wherever in the table these are recorded.
-/

namespace MiddleEnd

open List

namespace Scoping

/-- An open scope with the names visible in it and their bindings. -/
structure Seen where
  scope : NodeId
  names : List (Text × Option Binding)

/-- The open scopes from the innermost outwards. -/
abbrev View := List Seen

def Frame.seen (t : Table) (frame : Frame) : Seen :=
  ⟨frame.scope, frame.visible.map fun entry => (entry.1, t.binding? entry.2)⟩

namespace View

def find? (name : Text) : View → Option Binding
  | [] => none
  | seen :: outer =>
    match seen.names.lookup name with
    | some b => b
    | none => find? name outer

def declare (b : Binding) : View → View
  | [] => []
  | seen :: outer => { seen with names := (b.name, some b) :: seen.names } :: outer

theorem tail_declare (b : Binding) (view : View) : (view.declare b).tail = view.tail := by
  cases view <;> rfl

theorem lookup_seen (t : Table) (visible : List (Text × BindingRef)) (name : Text) :
    (visible.map fun entry => (entry.1, t.binding? entry.2)).lookup name =
      (visible.lookup name).map t.binding? := by
  induction visible with
  | nil => rfl
  | cons entry rest ih =>
    rw [map_cons, lookup_cons, lookup_cons, ih]
    cases name == entry.1 <;> rfl

theorem find?_seen (t : Table) (frames : List Frame) (name : Text) :
    find? name (frames.map (Frame.seen t)) =
      (Stack.find? name frames).bind fun found => t.binding? found.2 := by
  induction frames with
  | nil => rfl
  | cons frame outer ih =>
    simp only [map_cons, find?, Frame.seen, lookup_seen, Stack.find?]
    cases frame.visible.lookup name with
    | none => exact ih
    | some ref => rfl

end View

theorem Frame.seen_congr {frame : Frame}
    (recorded : ∀ entry ∈ frame.visible, t.find? frame.scope entry.1 = some entry.2)
    (same : t'.scope? frame.scope = t.scope? frame.scope) : frame.seen t' = frame.seen t := by
  simp only [seen, Seen.mk.injEq, true_and]
  apply map_congr_left
  intro entry member
  have place := Table.scope_of_find? (recorded entry member)
  simp only [Table.binding?, place, same]

end Scoping

namespace Lowering

open Scoping (Binding BindingRef Chained Frame ScopeKind Seen Stack Table View)

variable {st st' : State}

def State.view (st : State) : View := st.stack.frames.map (Frame.seen st.table)

/-- The open scopes are recorded one inside the other, and what they show is recorded in them. -/
structure State.Regular (st : State) : Prop where
  coherent : st.table.Coherent
  chained : Chained st.table st.stack.frames
  recorded : ∀ frame ∈ st.stack.frames, ∀ entry ∈ frame.visible,
    st.table.find? frame.scope entry.1 = some entry.2

theorem resolve_seen (ran : resolve node name st = .ok b st') :
    st' = st ∧ st.view.find? name = some b := by
  obtain ⟨same, ⟨scope, ref, found, binding⟩, -⟩ := resolve_eq_ok ran
  refine ⟨same, ?_⟩
  rw [State.view, View.find?_seen, found]
  exact binding

namespace State.Regular

theorem congr (regular : st.Regular) (stack : st'.stack = st.stack) (table : st'.table = st.table) :
    st'.Regular ∧ st'.view = st.view := by
  obtain ⟨builder, _, _⟩ := st'
  cases stack
  cases table
  exact ⟨⟨regular.coherent, regular.chained, regular.recorded⟩, rfl⟩

theorem rebuilt (regular : st.Regular) (builder : Ir.Builder) :
    State.Regular { st with builder := builder } :=
  ⟨regular.coherent, regular.chained, regular.recorded⟩

theorem start {builder : Ir.Builder} {table : Table} (coherent : table.Coherent) :
    State.Regular ⟨builder, .empty, table⟩ :=
  ⟨coherent, trivial, by simp [Stack.empty]⟩

theorem push (regular : st.Regular) {id : NodeId} (ran : Lowering.push kind id st = .ok () st') :
    st'.Regular ∧ st'.view = ⟨id, []⟩ :: st.view := by
  obtain ⟨table, entered, rfl⟩ := push_eq_ok ran
  obtain ⟨-, others⟩ := Table.scope?_enter entered
  have same : ∀ frame ∈ st.stack.frames, table.scope? frame.scope = st.table.scope? frame.scope :=
    fun frame member => others _ (regular.chained.recorded frame member)
  refine ⟨⟨regular.coherent.enter entered, regular.chained.push regular.coherent entered, ?_⟩, ?_⟩
  · rw [forall_mem_cons]
    refine ⟨by simp, fun frame member entry visible => ?_⟩
    rw [Table.find?, same frame member]
    exact regular.recorded frame member entry visible
  · refine congrArg (List.cons _) (map_congr_left fun frame member => ?_)
    exact Frame.seen_congr (regular.recorded frame member) (same frame member)

theorem pop (regular : st.Regular) {id : NodeId} (ran : Lowering.pop id st = .ok () st') :
    st'.Regular ∧ st'.view = st.view.tail := by
  obtain ⟨frame, outer, frames, rfl⟩ := pop_eq_ok ran
  obtain ⟨coherent, chained, recorded⟩ := regular
  rw [frames] at chained recorded
  rw [forall_mem_cons] at recorded
  refine ⟨⟨coherent, chained.2.2, recorded.2⟩, ?_⟩
  simp [view, frames]

theorem declare (regular : st.Regular) {name : Text} {mutable : Bool} {type : Ty}
    {storage : Ir.LocalId} (ran : Lowering.declare name mutable type storage st = .ok () st') :
    st'.Regular ∧ st'.view = st.view.declare ⟨name, mutable, type, storage⟩ ∧
      ∃ frame outer ref, st.stack.frames = frame :: outer ∧
        st.table.Declares st'.table frame.scope ref ⟨name, mutable, type, storage⟩ := by
  obtain ⟨table, stack, ref, declared, rfl⟩ := declare_eq_ok ran
  obtain ⟨coherent, chained, recorded⟩ := regular
  obtain ⟨builder, ⟨frames⟩, before⟩ := st
  cases frames with
  | nil => cases declared
  | cons frame outer =>
    simp only at declared chained recorded coherent
    rw [forall_mem_cons] at recorded
    cases visible : frame.visible.lookup name with
    | some ref' =>
      rw [Stack.declare_visible outer visible] at declared
      cases declared
    | none =>
      obtain ⟨table', ref', declared', declares⟩ := Stack.declare_new coherent outer
        (chained.recorded frame (by simp)) visible mutable type storage
      cases declared.symm.trans declared'
      -- No other open scope has this number, and no other name of this scope this place.
      have apart := chained.nodup
      rw [map_cons, nodup_cons] at apart
      have others : ∀ other ∈ outer, table.scope? other.scope = before.scope? other.scope :=
        fun other member => declares.others _ fun same =>
          apart.1 (same ▸ mem_map_of_mem member)
      have unlike : ∀ entry ∈ frame.visible, entry.1 ≠ name := by
        intro entry member same
        have absent := lookup_eq_none_iff.mp visible entry member
        simp [same] at absent
      have found : ∀ entry ∈ frame.visible,
          table.find? frame.scope entry.1 = some entry.2 := by
        intro entry member
        rw [declares.found, if_neg (unlike entry member)]
        exact recorded.1 entry member
      have kept : ∀ entry ∈ frame.visible, table.binding? entry.2 = before.binding? entry.2 := by
        intro entry member
        have different : entry.2 ≠ ref := by
          intro same
          obtain ⟨-, b, binding, named⟩ :=
            declares.coherent.find?_eq_some.mp (found entry member)
          rw [declares.binding, if_pos same] at binding
          cases binding
          exact unlike entry member named.symm
        rw [declares.binding, if_neg different]
      refine ⟨⟨declares.coherent, chained.within (declares.within coherent), ?_⟩, ?_, frame, outer, ref,
        rfl, declares⟩
      · rw [forall_mem_cons, forall_mem_cons]
        refine ⟨⟨?_, found⟩, fun other member entry shown => ?_⟩
        · rw [declares.found, if_pos rfl]
        · rw [Table.find?, others other member]
          exact recorded.2 other member entry shown
      · simp only [view, map_cons, View.declare, Frame.seen]
        congr 1
        · rw [declares.binding, if_pos rfl]
          congr 2
          exact map_congr_left fun entry member => by rw [kept entry member]
        · exact map_congr_left fun other member =>
            Frame.seen_congr (recorded.2 other member) (others other member)

end State.Regular

end Lowering

end MiddleEnd
