import MiddleEnd.Proofs.Scoping.Resolution

/-!
Tables that hold all scopes and names of another, and what checking a statement does to the table
and the open scopes.
-/

namespace MiddleEnd.Scoping

open List Option

namespace Table

theorem lookup_outline (t : Table) (key : NodeId) :
    t.outline.lookup key = (t.scope? key).map fun s => (s.kind, s.parent) := by
  unfold outline scope?
  induction t.scopes with
  | nil => rfl
  | cons entry rest ih =>
    obtain ⟨k, s⟩ := entry
    cases here : key == k with
    | true => simp [lookup_cons, here]
    | false => simpa [lookup_cons, here] using ih

variable {t t' : Table} {ref : BindingRef} {b : Binding} {scope id : NodeId}

theorem Coherent.find?_unique (coherent : t.Coherent) (place : ref.scope = key)
    (binding : t.binding? ref = some b) : t.find? key b.name = some ref :=
  coherent.find?_eq_some.mpr ⟨place, b, binding, rfl⟩

theorem Declares.kept (declares : t.Declares t' scope ref b) (coherent : t.Coherent)
    (found : t.find? scope b.name = some old) : old = ref := by
  obtain ⟨place, b', binding, named⟩ := coherent.find?_eq_some.mp found
  have still : t'.find? scope b.name = some ref := by rw [declares.found, if_pos rfl]
  -- Were the old place another one, it would still hold a binding of this name.
  by_cases same : old = ref
  · exact same
  · have binding' : t'.binding? old = some b' := by rw [declares.binding, if_neg same, binding]
    have found' := declares.coherent.find?_unique place binding'
    rw [named, still] at found'
    exact (Option.some.inj found').symm

/-- Same scopes with the same names, whatever else is recorded of these. -/
structure Alike (t t' : Table) : Prop where
  outline : t'.outline = t.outline
  ids : ∀ key, (t'.scope? key).map Scope.id = (t.scope? key).map Scope.id
  found : ∀ key name, t'.find? key name = t.find? key name
  names : ∀ ref, (t'.binding? ref).map Binding.name = (t.binding? ref).map Binding.name

theorem Alike.refl (t : Table) : t.Alike t :=
  ⟨rfl, fun _ => rfl, fun _ _ => rfl, fun _ => rfl⟩

theorem Alike.symm (alike : t.Alike t') : t'.Alike t :=
  ⟨alike.outline.symm, fun key => (alike.ids key).symm, fun key name => (alike.found key name).symm,
    fun ref => (alike.names ref).symm⟩

theorem Alike.trans {t₁ : Table} (first : t₁.Alike t₂) (second : t₂.Alike t₃) : t₁.Alike t₃ :=
  ⟨second.outline.trans first.outline, fun key => (second.ids key).trans (first.ids key),
    fun key name => (second.found key name).trans (first.found key name),
    fun ref => (second.names ref).trans (first.names ref)⟩

theorem Alike.scope? (alike : t.Alike t') (recorded : t.scope? key = some s) :
    ∃ s', t'.scope? key = some s' ∧ s'.id = s.id ∧ s'.kind = s.kind ∧ s'.parent = s.parent := by
  have outlined := congrArg (List.lookup key) alike.outline
  have numbered := alike.ids key
  rw [lookup_outline, lookup_outline, recorded] at outlined
  rw [recorded] at numbered
  obtain ⟨s', recorded', outlined⟩ := map_eq_some_iff.mp outlined
  rw [recorded'] at numbered
  simp only [Prod.mk.injEq] at outlined
  exact ⟨s', recorded', Option.some.inj numbered, outlined.1, outlined.2⟩

theorem Alike.binding? (alike : t.Alike t') (binding : t.binding? ref = some b) :
    ∃ b', t'.binding? ref = some b' ∧ b'.name = b.name := by
  have named := alike.names ref
  rw [binding] at named
  exact map_eq_some_iff.mp named

theorem Alike.coherent (alike : t.Alike t') (coherent : t.Coherent) : t'.Coherent := by
  constructor
  · intro key s' recorded'
    obtain ⟨s, recorded, id, -, -⟩ := alike.symm.scope? recorded'
    rw [← id]
    exact coherent.keyed key s recorded
  · intro key s' recorded' name position
    have indexed : s'.position? name = some position ↔ t'.find? key name = some ⟨key, position⟩ := by
      simp [find?, recorded']
    have binding : ∀ b, s'.bindings[position]? = some b ↔ t'.binding? ⟨key, position⟩ = some b := by
      simp [Table.binding?, recorded']
    rw [indexed, alike.found, coherent.find?_eq_some]
    constructor
    · rintro ⟨-, b, found, rfl⟩
      obtain ⟨b', found', named⟩ := alike.binding? found
      exact ⟨b', (binding b').mpr found', named⟩
    · rintro ⟨b', found', rfl⟩
      obtain ⟨b, found, named⟩ := alike.symm.binding? ((binding b').mp found')
      exact ⟨rfl, b, found, named⟩

theorem Declares.alike (declares : t.Declares t' scope ref b) (coherent : t.Coherent)
    (known : (t.find? scope b.name).isSome) : t.Alike t' := by
  obtain ⟨old, found⟩ := isSome_iff_exists.mp known
  obtain rfl := declares.kept coherent found
  refine ⟨declares.outline, fun key => ?_, fun key name => ?_, fun other => ?_⟩
  · have outlined := congrArg (List.lookup key) declares.outline
    rw [lookup_outline, lookup_outline] at outlined
    cases recorded : t.scope? key with
    | none =>
      rw [recorded] at outlined
      rw [map_eq_none_iff.mp outlined]
    | some s =>
      rw [recorded] at outlined
      obtain ⟨s', recorded', -⟩ := map_eq_some_iff.mp outlined
      rw [recorded', map_some, map_some, declares.coherent.keyed key s' recorded',
        coherent.keyed key s recorded]
  · by_cases here : key = scope
    · subst here
      rw [declares.found]
      split
      · next same => rw [same, found]
      · rfl
    · unfold find?
      rw [declares.others key here]
  · rw [declares.binding]
    split
    · next same =>
      obtain ⟨-, b', binding, named⟩ := coherent.find?_eq_some.mp found
      rw [same, binding, map_some, map_some, named]
    · rfl

/-- All scopes of the one are scopes of the other, with all their names in place. -/
structure Within (t t' : Table) : Prop where
  scopes : ∀ key s, t.scope? key = some s →
    ∃ s', t'.scope? key = some s' ∧ s'.kind = s.kind ∧ s'.parent = s.parent
  names : ∀ key name ref, t.find? key name = some ref → t'.find? key name = some ref

theorem Within.refl (t : Table) : t.Within t :=
  ⟨fun _ s recorded => ⟨s, recorded, rfl, rfl⟩, fun _ _ _ found => found⟩

theorem Within.trans {t₁ : Table} (first : t₁.Within t₂) (second : t₂.Within t₃) :
    t₁.Within t₃ := by
  refine ⟨fun key s recorded => ?_, fun key name ref found =>
    second.names key name ref (first.names key name ref found)⟩
  obtain ⟨s', recorded', kind, parent⟩ := first.scopes key s recorded
  obtain ⟨s'', recorded'', kind', parent'⟩ := second.scopes key s' recorded'
  exact ⟨s'', recorded'', kind'.trans kind, parent'.trans parent⟩

theorem Alike.within (alike : t.Alike t') : t.Within t' := by
  refine ⟨fun key s recorded => ?_, fun key name ref found => by rw [alike.found, found]⟩
  obtain ⟨s', recorded', -, kind, parent⟩ := alike.scope? recorded
  exact ⟨s', recorded', kind, parent⟩

theorem enter_known (numbered : id ≠ 0) (recorded : t.scope? id = some s) :
    t.enter s.kind id s.parent = .ok t := by
  simp [enter, numbered, recorded]

theorem enter_recorded (entered : t.enter kind id parent = .ok t') :
    id ≠ 0 ∧ ∃ s, t'.scope? id = some s ∧ s.kind = kind ∧ s.parent = parent := by
  obtain ⟨numbered, ⟨s, found, kind, parent, rfl⟩ | ⟨missing, -, rfl⟩⟩ := enter_cases entered
  · exact ⟨numbered, s, found, kind, parent⟩
  · exact ⟨numbered, _, by rw [scope?_append, missing, none_or, if_pos rfl], rfl, rfl⟩

theorem Within.enter (entered : t.enter kind id parent = .ok t') : t.Within t' := by
  have others := (scope?_enter entered).2
  constructor
  · intro key s recorded
    exact ⟨s, by rw [others key (by simp [recorded]), recorded], rfl, rfl⟩
  · intro key name ref found
    obtain ⟨s, recorded, -⟩ := bind_eq_some_iff.mp found
    rw [← found]
    unfold find?
    rw [others key (by simp [recorded])]

theorem Declares.within (declares : t.Declares t' scope ref b) (coherent : t.Coherent) :
    t.Within t' := by
  constructor
  · intro key s recorded
    have outlined := congrArg (List.lookup key) declares.outline
    rw [lookup_outline, lookup_outline, recorded] at outlined
    obtain ⟨s', recorded', same⟩ := map_eq_some_iff.mp outlined
    simp only [Prod.mk.injEq] at same
    exact ⟨s', recorded', same.1, same.2⟩
  · intro key name old found
    by_cases here : key = scope
    · subst here
      rw [declares.found]
      split
      · next same =>
        subst same
        rw [declares.kept coherent found]
      · exact found
    · rw [← found]
      unfold find?
      rw [declares.others key here]

end Table

/-- Each open scope is recorded as a child of the one around it, up to one that has no parent. -/
def Chained (t : Table) : List Frame → Prop
  | [] => True
  | frame :: outer =>
    frame.scope ≠ 0 ∧
      (∃ s, t.scope? frame.scope = some s ∧ s.parent = (outer.head?.map Frame.scope).getD 0) ∧
      Chained t outer

namespace Chained

variable {t t' : Table}

variable {frames : List Frame}

theorem recorded (chained : Chained t frames) :
    ∀ frame ∈ frames, (t.scope? frame.scope).isSome := by
  induction frames with
  | nil => simp
  | cons frame outer ih =>
    obtain ⟨-, ⟨s, found, -⟩, rest⟩ := chained
    intro other member
    rcases mem_cons.mp member with rfl | member
    · simp [found]
    · exact ih rest other member

theorem within (within : t.Within t') (chained : Chained t frames) : Chained t' frames := by
  induction frames with
  | nil => trivial
  | cons frame outer ih =>
    obtain ⟨numbered, ⟨s, found, parent⟩, rest⟩ := chained
    obtain ⟨s', found', -, parent'⟩ := within.scopes _ s found
    exact ⟨numbered, ⟨s', found', parent'.trans parent⟩, ih rest⟩

theorem line (chained : Chained t frames) :
    t.Line ((frames.head?.map Frame.scope).getD 0) (frames.map Frame.scope) := by
  induction frames with
  | nil => exact .outside
  | cons frame outer ih =>
    obtain ⟨numbered, ⟨s, found, parent⟩, rest⟩ := chained
    exact .inside numbered found (parent ▸ ih rest)

theorem nodup (chained : Chained t frames) : (frames.map Frame.scope).Nodup :=
  chained.line.nodup

theorem suffix (chained : Chained t (front ++ frames)) : Chained t frames := by
  induction front with
  | nil => exact chained
  | cons frame front ih => exact ih chained.2.2

theorem topId_eq (chained : Chained t frames) (coherent : t.Coherent) :
    Stack.topId ⟨frames⟩ t = (frames.head?.map Frame.scope).getD 0 := by
  cases frames with
  | nil => rfl
  | cons frame outer => exact Stack.topId_cons coherent outer (chained.recorded frame (by simp))

theorem push (chained : Chained t frames) (coherent : t.Coherent) {id : NodeId}
    (entered : t.enter kind id (Stack.topId ⟨frames⟩ t) = .ok t') :
    Chained t' (⟨id, []⟩ :: frames) := by
  have top := chained.topId_eq coherent
  obtain ⟨numbered, s, found, -, parent⟩ := Table.enter_recorded entered
  exact ⟨numbered, ⟨s, found, parent.trans top⟩, chained.within (.enter entered)⟩

end Chained

namespace Checker

variable {c c' : Checker} {kind : ScopeKind} {id : NodeId}

theorem push_eq_ok (pushed : c.push kind id = .ok c') :
    ∃ table, c.table.enter kind id (c.stack.topId c.table) = .ok table ∧
      c' = { c with stack := ⟨⟨id, []⟩ :: c.stack.frames⟩, table := table } := by
  obtain ⟨⟨stack, table⟩, opened, same⟩ := bind_eq_ok.mp pushed
  obtain ⟨entered, stacked⟩ := Stack.push_eq_ok.mp opened
  cases same
  exact ⟨table, entered, by rw [stacked]⟩

theorem pop_eq_ok (popped : c.pop id = .ok c') :
    ∃ frame outer, c.stack.frames = frame :: outer ∧ c.stack.topId c.table = id ∧
      c' = { c with stack := ⟨outer⟩ } := by
  obtain ⟨⟨outer⟩, closed, same⟩ := bind_eq_ok.mp popped
  obtain ⟨frame, frames, top⟩ := Stack.pop_eq_ok closed
  cases same
  exact ⟨frame, outer, frames, top, rfl⟩

/-- The open scopes are recorded, one inside the other. -/
structure Kept (c : Checker) : Prop where
  coherent : c.table.Coherent
  chained : Chained c.table c.stack.frames

/-- The check went on: scopes, names and problems were only added, and the same scopes are open. -/
structure Extends (c c' : Checker) : Prop where
  kept : c'.Kept
  within : c.table.Within c'.table
  problems : c.problems <+: c'.problems
  outer : c'.stack.frames.tail = c.stack.frames.tail
  scopes : c'.stack.frames.map Frame.scope = c.stack.frames.map Frame.scope

theorem Kept.refl (kept : c.Kept) : c.Extends c :=
  ⟨kept, .refl _, prefix_refl _, rfl, rfl⟩

theorem Extends.trans {c₁ : Checker} (first : c₁.Extends c₂) (second : c₂.Extends c₃) :
    c₁.Extends c₃ :=
  ⟨second.kept, first.within.trans second.within, first.problems.trans second.problems,
    second.outer.trans first.outer, second.scopes.trans first.scopes⟩

theorem Kept.report (kept : c.Kept) (problems : List CheckError) : c.Extends (c.report problems) :=
  ⟨⟨kept.coherent, kept.chained⟩, .refl _, prefix_append _ _, rfl, rfl⟩

theorem Kept.push (kept : c.Kept) (pushed : c.push kind id = .ok c') :
    c'.Kept ∧ c.table.Within c'.table ∧ c'.problems = c.problems := by
  obtain ⟨table, entered, rfl⟩ := push_eq_ok pushed
  exact ⟨⟨kept.coherent.enter entered, kept.chained.push kept.coherent entered⟩, .enter entered, rfl⟩

theorem Extends.closed (kept : c.Kept) (pushed : c.push kind id = .ok opened)
    (inside : opened.Extends filled) (popped : filled.pop id = .ok c') :
    c.Extends c' ∧ c'.stack = c.stack ∧ c'.table = filled.table := by
  obtain ⟨-, within, problems⟩ := kept.push pushed
  obtain ⟨table, -, rfl⟩ := push_eq_ok pushed
  obtain ⟨frame, outer, frames, -, rfl⟩ := pop_eq_ok popped
  obtain rfl : outer = c.stack.frames := by simpa [frames] using inside.outer
  have whole := within.trans inside.within
  exact ⟨⟨⟨inside.kept.coherent, kept.chained.within whole⟩, whole, problems ▸ inside.problems, rfl,
    rfl⟩, rfl, rfl⟩

theorem declare_cases (kept : c.Kept) (ran : c.declare node mutable name type = .ok c') :
    ∃ frame outer, c.stack.frames = frame :: outer ∧
      ((frame.visible.lookup name ≠ none ∧ ∃ e, c' = c.report [e]) ∨
        (frame.visible.lookup name = none ∧ ∃ table ref,
          c.table.Declares table frame.scope ref ⟨name, mutable, type, Ir.noId⟩ ∧
          c' = { c with
            table := table
            stack := ⟨{ frame with visible := (name, ref) :: frame.visible } :: outer⟩ })) := by
  obtain ⟨coherent, chained⟩ := kept
  obtain ⟨table, ⟨frames⟩, problems⟩ := c
  cases frames with
  | nil => cases ran
  | cons frame outer =>
    refine ⟨frame, outer, rfl, ?_⟩
    cases visible : frame.visible.lookup name with
    | some ref =>
      simp only [declare, Stack.declare_visible outer visible] at ran
      cases ran
      exact .inl ⟨by simp, _, rfl⟩
    | none =>
      obtain ⟨table', ref, declared, declares⟩ := Stack.declare_new coherent outer
        (chained.recorded frame (by simp)) visible mutable type Ir.noId
      simp only [declare, declared] at ran
      cases ran
      exact .inr ⟨rfl, table', ref, declares, rfl⟩

theorem Kept.declare {c c' : Checker} (kept : c.Kept) {node : NodeId} {mutable : Bool}
    {name : Text} {type : Ty} (ran : c.declare node mutable name type = .ok c') :
    c.Extends c' := by
  obtain ⟨frame, outer, frames, ⟨-, e, rfl⟩ | ⟨-, table, ref, declares, rfl⟩⟩ :=
    declare_cases kept ran
  · exact kept.report [e]
  · have within := declares.within kept.coherent
    have chained := kept.chained
    rw [frames] at chained
    refine ⟨⟨declares.coherent, ?_⟩, within, prefix_refl _, by rw [frames]; rfl,
      by rw [frames]; rfl⟩
    obtain ⟨numbered, parent, rest⟩ := chained.within within
    exact ⟨numbered, parent, rest⟩

theorem stmtList_extends {stmts : List Stmt}
    (each : ∀ s ∈ stmts, ∀ c c' : Checker, c.Kept → c.stmt s = .ok c' → c.Extends c')
    (kept : c.Kept) (ran : c.stmtList stmts = .ok c') : c.Extends c' := by
  induction stmts generalizing c with
  | nil =>
    cases ran
    exact kept.refl
  | cons s rest ih =>
    obtain ⟨middle, ranHead, ranRest⟩ := bind_eq_ok.mp ran
    have head := each s (by simp) c middle kept ranHead
    exact head.trans (ih (fun s member => each s (by simp [member])) head.kept ranRest)

theorem Kept.stmt (kept : c.Kept) {s : Stmt} (ran : c.stmt s = .ok c') : c.Extends c' := by
  induction s using Stmt.induction generalizing c c' with
  | absent | unknown =>
    cases ran
    exact kept.refl
  | bare node =>
    obtain ⟨opened, pushed, popped⟩ := bind_eq_ok.mp ran
    exact (Extends.closed kept pushed (kept.push pushed).1.refl popped).1
  | block node stmts each =>
    obtain ⟨opened, pushed, rest⟩ := bind_eq_ok.mp ran
    obtain ⟨filled, ranInner, popped⟩ := bind_eq_ok.mp rest
    have inside := stmtList_extends (fun s member c c' kept => each s member kept)
      (kept.push pushed).1 ranInner
    exact (Extends.closed kept pushed inside popped).1
  | decl node mutable name type value =>
    have reported := kept.report (c.exprProblems value)
    exact reported.trans (reported.kept.declare ran)
  | assign | ret =>
    cases ran
    exact kept.report _
  | cond node test yes no yesIH noIH =>
    have reported := kept.report (c.exprProblems test)
    obtain ⟨middle, ranYes, ranNo⟩ := bind_eq_ok.mp ran
    have first := yesIH reported.kept ranYes
    exact (reported.trans first).trans (noIH first.kept ranNo)
  | loop node test body ih =>
    have reported := kept.report (c.exprProblems test)
    exact reported.trans (ih reported.kept ran)

theorem Kept.func (kept : c.Kept) (ran : c.func f = .ok c') :
    c.Extends c' ∧ c'.stack = c.stack := by
  cases f with
  | none => cases ran
  | some f =>
    obtain ⟨opened, filled, pushed, ranBody, popped⟩ := func_eq_ok ran
    have inside := (kept.push pushed).1.stmt ranBody
    obtain ⟨whole, stack, -⟩ := Extends.closed kept pushed inside popped
    exact ⟨whole, stack⟩

theorem Kept.funcs (kept : c.Kept) {entries : List (Option Func)} (ran : c.funcs entries = .ok c') :
    c.Extends c' ∧ ∀ entry ∈ entries, ∃ (f : Func) (c₁ c₂ : Checker), entry = some f ∧ c₁.Kept ∧
      c₁.stack = c.stack ∧ c₁.func (some f) = .ok c₂ ∧ c₂.Extends c' := by
  induction entries generalizing c with
  | nil =>
    cases ran
    exact ⟨kept.refl, by simp⟩
  | cons entry rest ih =>
    obtain ⟨middle, ranHead, ranRest⟩ := bind_eq_ok.mp ran
    obtain ⟨head, stack⟩ := kept.func ranHead
    obtain ⟨tail, each⟩ := ih head.kept ranRest
    refine ⟨head.trans tail, forall_mem_cons.mpr ⟨?_, stack ▸ each⟩⟩
    cases entry with
    | none => cases ranHead
    | some f => exact ⟨f, c, middle, rfl, kept, rfl, ranHead, tail⟩

/-- The check opened the module, came to the function, passed it without problems and ended with a
table that holds all scopes and names of it. -/
structure Passes (final : Table) (module : NodeId) (f : Func) (inModule c opened filled c' : Checker) :
    Prop where
  entered : start.push .module module = .ok inModule
  withinModule : inModule.table.Within final
  kept : c.Kept
  stack : c.stack = inModule.stack
  pushed : c.push .function f.id = .ok opened
  body : opened.stmt f.body = .ok filled
  popped : filled.pop f.id = .ok c'
  clean : filled.problems = []
  within : filled.table.Within final

end Checker

theorem Table.ofModule_passes (accepted : Table.ofModule m = .ok t) :
    t.Coherent ∧ ∀ entry ∈ m.entries, ∃ f inModule c opened filled c',
      entry = some f ∧ Checker.Passes t m.id f inModule c opened filled c' := by
  obtain ⟨inModule, last, entered, walked, clean, rfl⟩ := ofModule_walk accepted
  have kept : Checker.start.Kept := ⟨Table.coherent_empty, trivial⟩
  obtain ⟨whole, each⟩ := (kept.push entered).1.funcs walked
  refine ⟨whole.kept.coherent, fun entry member => ?_⟩
  obtain ⟨f, c, c', rfl, keptHere, stack, ran, behind⟩ := each entry member
  obtain ⟨opened, filled, pushed, body, popped⟩ := Checker.func_eq_ok ran
  refine ⟨f, inModule, c, opened, filled, c', rfl, entered, whole.within, keptHere, stack, pushed,
    body, popped, ?_, ?_⟩
  · obtain ⟨frame, outer, -, -, rfl⟩ := Checker.pop_eq_ok popped
    exact prefix_nil.mp (clean ▸ behind.problems)
  · rw [← Checker.pop_table popped]
    exact behind.within

theorem Table.ofModule_entry (accepted : Table.ofModule m = .ok t) (member : entry ∈ m.entries) :
    ∃ f, entry = some f := by
  obtain ⟨f, _, _, _, _, _, same, -⟩ := (ofModule_passes accepted).2 entry member
  exact ⟨f, same⟩

theorem Table.exists_func (accepted : Table.ofModule m = .ok t) (inside : i < m.entries.length) :
    ∃ f, m.entries[i]? = some (some f) := by
  obtain ⟨f, same⟩ := ofModule_entry accepted (getElem_mem inside)
  exact ⟨f, by rw [List.getElem?_eq_getElem inside, same]⟩

end MiddleEnd.Scoping
