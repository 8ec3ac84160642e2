import MiddleEnd.Proofs.Scoping.Records
import MiddleEnd.Scoping.Consistency

/-!
Tables that grow scope by scope, each scope inside one that is there already.
-/

namespace MiddleEnd.Scoping

open List

variable {parent : NodeId} {kind : ScopeKind}

/-- An outline that grew scope by scope, each inside one that was opened before it or inside none. -/
inductive Rooted : List (NodeId × ScopeKind × NodeId) → Prop where
  | nil : Rooted []
  | snoc {opened : List (NodeId × ScopeKind × NodeId)} {id parent : NodeId} (kind : ScopeKind)
      (earlier : Rooted opened) (numbered : id ≠ 0) (fresh : id ∉ opened.map Prod.fst)
      (known : parent = 0 ∨ parent ∈ opened.map Prod.fst) : Rooted (opened ++ [(id, kind, parent)])

namespace Table

/-- The scopes from one outwards, up to one without parent. -/
inductive Line (t : Table) : NodeId → List NodeId → Prop where
  | outside : Line t 0 []
  | inside {key : NodeId} {s : Scope} {outer : List NodeId} (numbered : key ≠ 0)
      (recorded : t.scope? key = some s) (around : Line t s.parent outer) :
      Line t key (key :: outer)

namespace Line

variable {t : Table} {key : NodeId} {keys : List NodeId}

theorem chainExceeds (line : t.Line key keys) (enough : keys.length ≤ fuel) :
    t.chainExceeds fuel key = false := by
  induction line generalizing fuel with
  | outside => cases fuel <;> simp [Table.chainExceeds]
  | inside numbered recorded around ih =>
    obtain ⟨fuel, rfl⟩ := Nat.exists_eq_succ_of_ne_zero (Nat.ne_zero_of_lt enough)
    simp only [Table.chainExceeds, if_neg numbered, recorded]
    exact ih (Nat.le_of_succ_le_succ enough)

/-- A search that may climb so far finds the nearest scope that has the name. -/
theorem resolveWithin (line : t.Line key keys) (enough : keys.length < fuel) (name : Text) :
    t.resolveWithin fuel key name = keys.findSome? fun k => t.find? k name := by
  induction line generalizing fuel with
  | outside =>
    obtain ⟨fuel, rfl⟩ := Nat.exists_eq_succ_of_ne_zero (Nat.ne_zero_of_lt enough)
    rfl
  | @inside key s outer numbered recorded around ih =>
    obtain ⟨fuel, rfl⟩ := Nat.exists_eq_succ_of_ne_zero (Nat.ne_zero_of_lt enough)
    have onward := ih (Nat.lt_of_succ_lt_succ enough)
    cases found : t.find? key name with
    | some ref =>
      simp only [Table.resolveWithin, if_neg numbered, recorded, List.findSome?_cons, found]
    | none =>
      simp only [Table.resolveWithin, if_neg numbered, recorded, List.findSome?_cons, found, onward]

theorem unique (line : t.Line key keys) (line' : t.Line key keys') : keys = keys' := by
  induction line generalizing keys' with
  | outside =>
    cases line' with
    | outside => rfl
    | inside numbered => exact absurd rfl numbered
  | inside numbered recorded around ih =>
    cases line' with
    | outside => exact absurd rfl numbered
    | inside _ recorded' around' =>
      cases recorded.symm.trans recorded'
      rw [ih around']

theorem suffix {inner : List NodeId} (line : t.Line key (inner ++ other :: outer)) :
    t.Line other (other :: outer) := by
  induction inner generalizing key with
  | nil =>
    cases line with
    | inside numbered recorded around => exact .inside numbered recorded around
  | cons _ inner ih =>
    cases line with
    | inside _ _ around => exact ih around

theorem nodup (line : t.Line key keys) : keys.Nodup := by
  induction line with
  | outside => exact nodup_nil
  | @inside key s outer numbered recorded around ih =>
    refine nodup_cons.mpr ⟨fun again => ?_, ih⟩
    obtain ⟨front, back, rfl⟩ := append_of_mem again
    have lengths := congrArg List.length ((inside numbered recorded around).unique around.suffix)
    simp only [length_cons, length_append] at lengths
    omega

end Line

end Table

namespace Rooted

variable {outline : List (NodeId × ScopeKind × NodeId)}

theorem nodup (rooted : Rooted outline) : (outline.map Prod.fst).Nodup := by
  induction rooted with
  | nil => simp
  | snoc kind earlier numbered fresh known ih =>
    rw [map_append, nodup_append]
    refine ⟨ih, by simp, ?_⟩
    intro id member other here same
    simp only [map_cons, map_nil, mem_singleton] at here
    exact fresh (here ▸ same ▸ member)

/-- In a table with such scopes, fewer are around a scope than were opened up to it. -/
theorem line {t : Table} (rooted : Rooted outline)
    (recorded : ∀ id kind parent, (id, kind, parent) ∈ outline →
      ∃ s, t.scope? id = some s ∧ s.parent = parent) {id : NodeId}
    (member : (id, kind, parent) ∈ outline) :
    id ≠ 0 ∧ ∃ keys, t.Line parent keys ∧ keys.length < outline.length := by
  induction rooted generalizing id kind parent with
  | nil => cases member
  | @snoc opened last above lastKind earlier numbered fresh known ih =>
    have before : ∀ {id kind parent}, (id, kind, parent) ∈ opened →
        id ≠ 0 ∧ ∃ keys, t.Line parent keys ∧ keys.length < opened.length :=
      ih fun id kind parent member => recorded id kind parent (mem_append_left _ member)
    rw [length_append, length_singleton]
    rcases mem_append.mp member with inOpened | isLast
    · obtain ⟨numbered, keys, line, bound⟩ := before inOpened
      exact ⟨numbered, keys, line, Nat.lt_succ_of_lt bound⟩
    · cases mem_singleton.mp isLast
      refine ⟨numbered, ?_⟩
      rcases known with rfl | inOpened
      · exact ⟨[], .outside, Nat.succ_pos _⟩
      · obtain ⟨⟨around, kind', parent'⟩, entry, rfl⟩ := mem_map.mp inOpened
        obtain ⟨numbered', keys, line, bound⟩ := before entry
        obtain ⟨s, found, rfl⟩ := recorded around kind' parent' (mem_append_left _ entry)
        exact ⟨around :: keys, .inside numbered' found line, Nat.succ_lt_succ bound⟩

end Rooted

/-- A scope of this kind may be opened inside the scope `parent`, zero for none, behind those that
were opened before. -/
def Nests (opened : List (NodeId × ScopeKind × NodeId)) (kind : ScopeKind) (parent : NodeId) :
    Prop :=
  kind ≠ .invalid ∧
    (parent = 0 ∨ kind ≠ .module ∧ ∃ around above, (parent, around, above) ∈ opened ∧
      (kind = .function → around = .module))

/-- An outline that grew scope by scope. -/
inductive Layered : List (NodeId × ScopeKind × NodeId) → Prop where
  | nil : Layered []
  | snoc {opened : List (NodeId × ScopeKind × NodeId)} {id parent : NodeId} {kind : ScopeKind}
      (earlier : Layered opened) (numbered : id ≠ 0) (fresh : id ∉ opened.map Prod.fst)
      (nests : Nests opened kind parent) : Layered (opened ++ [(id, kind, parent)])

theorem Nests.mono (nests : Nests opened kind parent) (subset : opened ⊆ more) :
    Nests more kind parent := by
  refine ⟨nests.1, nests.2.imp_right ?_⟩
  rintro ⟨notModule, around, above, member, inModule⟩
  exact ⟨notModule, around, above, subset member, inModule⟩

namespace Layered

variable {outline : List (NodeId × ScopeKind × NodeId)}

theorem rooted (layered : Layered outline) : Rooted outline := by
  induction layered with
  | nil => exact .nil
  | snoc earlier numbered fresh nests ih =>
    refine .snoc _ ih numbered fresh (nests.2.imp_right ?_)
    rintro ⟨-, around, above, member, -⟩
    exact mem_map.mpr ⟨_, member, rfl⟩

theorem nests (layered : Layered outline) {id : NodeId} (member : (id, kind, parent) ∈ outline) :
    Nests outline kind parent := by
  induction layered with
  | nil => cases member
  | snoc earlier numbered fresh last ih =>
    rcases mem_append.mp member with before | here
    · exact (ih before).mono (subset_append_left _ _)
    · cases mem_singleton.mp here
      exact last.mono (subset_append_left _ _)

end Layered

namespace Table

@[simp] theorem outline_length (t : Table) : t.outline.length = t.size := by
  simp [outline, size]

theorem outline_keys (t : Table) : t.outline.map Prod.fst = t.keys := by
  simp [outline, keys]

theorem lookup_of_mem {entries : List (NodeId × Scope)} (nodup : (entries.map Prod.fst).Nodup)
    (member : (key, s) ∈ entries) : entries.lookup key = some s := by
  induction entries with
  | nil => cases member
  | cons entry rest ih =>
    obtain ⟨k, s'⟩ := entry
    rw [map_cons, nodup_cons] at nodup
    rcases mem_cons.mp member with here | behind
    · cases here
      simp
    · have distinct : key ≠ k := by
        rintro rfl
        exact nodup.1 (mem_map.mpr ⟨_, behind, rfl⟩)
      rw [lookup_cons, beq_eq_false_iff_ne.mpr distinct]
      exact ih nodup.2 behind

theorem scope?_of_mem {t : Table} (rooted : Rooted t.outline) (member : (key, s) ∈ t.scopes) :
    t.scope? key = some s := by
  have nodup := rooted.nodup
  rw [outline_keys] at nodup
  exact lookup_of_mem nodup member

theorem bindingFaults_eq_nil {key : NodeId} {s : Scope} (indexed : s.Indexed) {seen : List Text}
    {before rest : List Binding} (split : s.bindings = before ++ rest)
    (inSeen : ∀ name, name ∈ seen ↔ ∃ b ∈ before, b.name = name) :
    bindingFaults key s seen before.length rest = [] := by
  induction rest generalizing seen before with
  | nil => rfl
  | cons b rest ih =>
    have position : s.position? b.name = some before.length :=
      (indexed b.name before.length).mpr ⟨b, by simp [split], rfl⟩
    have unseen : b.name ∉ seen := by
      intro member
      obtain ⟨other, inBefore, same⟩ := (inSeen b.name).mp member
      obtain ⟨i, found⟩ := List.getElem?_of_mem inBefore
      have bound := (List.getElem?_eq_some_iff.mp found).1
      have twice := (indexed b.name i).mpr
        ⟨other, by rw [split, List.getElem?_append_left bound, found], same⟩
      cases position.symm.trans twice
      exact Nat.lt_irrefl _ bound
    simp only [bindingFaults, unseen, position, if_true, if_false, nil_append]
    have tail := @ih (b.name :: seen) (before ++ [b]) (by simp [split]) fun name => by
      simp only [mem_cons, mem_append, not_mem_nil, or_false, inSeen]
      constructor
      · rintro (rfl | ⟨other, member, same⟩)
        · exact ⟨b, .inr rfl, rfl⟩
        · exact ⟨other, .inl member, same⟩
      · rintro ⟨other, member | rfl, same⟩
        · exact .inr ⟨other, member, same⟩
        · exact .inl same.symm
    simpa using tail

theorem outline_append (t : Table) (id parent : NodeId) (kind : ScopeKind) :
    (Table.mk (t.scopes ++ [(id, .empty kind id parent)])).outline =
      t.outline ++ [(id, kind, parent)] := by
  simp [outline, Scope.empty]

theorem mem_keys_iff (t : Table) (id : NodeId) : id ∈ t.keys ↔ (t.scope? id).isSome := by
  unfold keys scope?
  induction t.scopes with
  | nil => simp
  | cons entry rest ih =>
    obtain ⟨k, s⟩ := entry
    rw [map_cons, mem_cons, ih, lookup_cons]
    by_cases same : id = k
    · simp [same]
    · simp [same, beq_eq_false_iff_ne.mpr same]

/-- What can be wrong with the kinds of recorded scopes. -/
inductive Misfits (t : Table) : TableFault → Prop where
  | kind {key : NodeId} {s : Scope} (recorded : t.scope? key = some s) (kind : s.kind = .invalid) :
      Misfits t (.invalidKind key)
  | module {key : NodeId} {s : Scope} (recorded : t.scope? key = some s) (kind : s.kind = .module)
      (nested : s.parent ≠ 0) : Misfits t (.moduleWithParent key s.parent)
  | function {key : NodeId} {s around : Scope} (recorded : t.scope? key = some s)
      (kind : s.kind = .function) (nested : s.parent ≠ 0) (outer : t.scope? s.parent = some around)
      (elsewhere : around.kind ≠ .module) : Misfits t (.misnestedFunction key around.kind s.parent)

section Rooted

variable {t : Table} {key : NodeId} {s : Scope} (rooted : Rooted t.outline)
include rooted

theorem mem_scopes_iff : (key, s) ∈ t.scopes ↔ t.scope? key = some s := by
  refine ⟨scope?_of_mem rooted, fun recorded => ?_⟩
  obtain ⟨before, behind, equation, -⟩ := lookup_eq_some_iff.mp recorded
  simp [equation]

theorem line_around (recorded : t.scope? key = some s) :
    key ≠ 0 ∧ ∃ keys, t.Line s.parent keys ∧ keys.length < t.size := by
  have member : (key, s.kind, s.parent) ∈ t.outline :=
    mem_map.mpr ⟨(key, s), (mem_scopes_iff rooted).mpr recorded, rfl⟩
  rw [← outline_length]
  refine rooted.line (fun id kind parent member => ?_) member
  obtain ⟨⟨id', s⟩, entry, same⟩ := mem_map.mp member
  cases same
  exact ⟨s, scope?_of_mem rooted entry, rfl⟩

theorem scopeFaults_eq (coherent : t.Coherent) (recorded : t.scope? key = some s) :
    t.scopeFaults key s =
      (if s.kind = .invalid then [.invalidKind key] else []) ++ t.nestingFaults key s := by
  obtain ⟨-, keys, line, bound⟩ := line_around rooted recorded
  have bindings : bindingFaults key s [] 0 s.bindings = [] :=
    @bindingFaults_eq_nil key s (coherent.indexed key s recorded) [] [] s.bindings rfl (by simp)
  simp [scopeFaults, coherent.keyed key s recorded, bindings, line.chainExceeds (Nat.le_of_lt bound)]

theorem mem_nestingFaults (recorded : t.scope? key = some s) :
    fault ∈ t.nestingFaults key s ↔ s.parent ≠ 0 ∧
      (s.kind = .module ∧ fault = .moduleWithParent key s.parent ∨
        s.kind = .function ∧ ∃ around, t.scope? s.parent = some around ∧ around.kind ≠ .module ∧
          fault = .misnestedFunction key around.kind s.parent) := by
  obtain ⟨-, keys, line, -⟩ := line_around rooted recorded
  unfold nestingFaults
  by_cases top : s.parent = 0
  · simp [top]
  · obtain ⟨around, outer⟩ : ∃ around, t.scope? s.parent = some around := by
      generalize s.parent = parent at line top
      cases line with
      | outside => exact absurd rfl top
      | inside _ outer => exact ⟨_, outer⟩
    simp only [outer, ne_eq, top, not_false_eq_true, true_and, Option.some.injEq]
    by_cases isModule : s.kind = .module
    · simp [isModule]
    · by_cases isFunction : s.kind = .function
      · by_cases inModule : around.kind = .module <;> simp [isFunction, inModule]
      · simp [isModule, isFunction]

theorem mem_faults_iff (coherent : t.Coherent) : fault ∈ t.faults ↔ t.Misfits fault := by
  have reported : fault ∈ t.faults ↔
      ∃ key s, t.scope? key = some s ∧ fault ∈ t.scopeFaults key s := by
    unfold faults sorted
    rw [mem_flatMap]
    constructor
    · rintro ⟨⟨key, s⟩, member, found⟩
      exact ⟨key, s, (mem_scopes_iff rooted).mp (mem_mergeSort.mp member), found⟩
    · rintro ⟨key, s, recorded, found⟩
      exact ⟨(key, s), mem_mergeSort.mpr ((mem_scopes_iff rooted).mpr recorded), found⟩
  rw [reported]
  constructor
  · rintro ⟨key, s, recorded, found⟩
    rw [scopeFaults_eq rooted coherent recorded, mem_append, mem_ite_nil_right,
      mem_singleton, mem_nestingFaults rooted recorded] at found
    obtain ⟨kind, rfl⟩ | ⟨nested, ⟨kind, rfl⟩ | ⟨kind, around, outer, elsewhere, rfl⟩⟩ := found
    · exact .kind recorded kind
    · exact .module recorded kind nested
    · exact .function recorded kind nested outer elsewhere
  · intro misfits
    cases misfits with
    | kind recorded kind =>
      refine ⟨_, _, recorded, ?_⟩
      rw [scopeFaults_eq rooted coherent recorded, if_pos kind]
      exact mem_append_left _ (mem_singleton.mpr rfl)
    | module recorded kind nested =>
      refine ⟨_, _, recorded, ?_⟩
      rw [scopeFaults_eq rooted coherent recorded]
      refine mem_append_right _ ((mem_nestingFaults rooted recorded).mpr ?_)
      exact ⟨nested, .inl ⟨kind, rfl⟩⟩
    | function recorded kind nested outer elsewhere =>
      refine ⟨_, _, recorded, ?_⟩
      rw [scopeFaults_eq rooted coherent recorded]
      refine mem_append_right _ ((mem_nestingFaults rooted recorded).mpr ?_)
      exact ⟨nested, .inr ⟨kind, _, outer, elsewhere, rfl⟩⟩

end Rooted

theorem faults_eq_nil {t : Table} (coherent : t.Coherent) (layered : Layered t.outline) :
    t.faults = [] := by
  have nests : ∀ {key s}, t.scope? key = some s → Nests t.outline s.kind s.parent := by
    intro key s recorded
    exact layered.nests
      (mem_map.mpr ⟨(key, s), (mem_scopes_iff layered.rooted).mpr recorded, rfl⟩)
  refine eq_nil_iff_forall_not_mem.mpr fun fault found => ?_
  cases (mem_faults_iff layered.rooted coherent).mp found with
  | kind recorded kind => exact (nests recorded).1 kind
  | module recorded kind nested => exact ((nests recorded).2.resolve_left nested).1 kind
  | @function key s around recorded kind nested outer elsewhere =>
    obtain ⟨-, kind', above, member, inModule⟩ := (nests recorded).2.resolve_left nested
    obtain ⟨⟨id, s'⟩, entry, same⟩ := mem_map.mp member
    cases same
    cases outer.symm.trans (scope?_of_mem layered.rooted entry)
    exact elsewhere (inModule kind)

end Table

end MiddleEnd.Scoping
