import MiddleEnd.Proofs.Lowering.Accesses
import MiddleEnd.Proofs.Lowering.Independence

/-!
Storage follows lexical scoping: slots belong to the declarations in live code, in order, and every
load and store has the slot of the declaration in scope.
-/

namespace MiddleEnd

open Scoping List Option

/-! What lowering meets, read off the tree. -/

namespace Stmt

end Stmt

/-- In one scope, and in scopes of their own numbers inside it, names are declared once each. -/
structure DeclaredOnce (env env' : Env) (scope : NodeId) (ids : List NodeId)
    (met : List Declaration) : Prop where
  grows : ∀ name, env.declares name = true → env'.declares name = true
  new : ∀ d ∈ met, d.scope = scope → env.declares d.name = false ∧ env'.declares d.name = true
  inside : ∀ d ∈ met, d.scope = scope ∨ d.scope ∈ ids
  nodup : (met.map Declaration.place).Nodup

namespace DeclaredOnce

variable {env env' : Env} {scope : NodeId} {ids : List NodeId}

theorem none (env : Env) (scope : NodeId) (ids : List NodeId) : DeclaredOnce env env scope ids [] :=
  ⟨fun _ declared => declared, by simp, by simp, by simp⟩

theorem mono (once : DeclaredOnce env env' scope ids met) (subset : ∀ id ∈ ids, id ∈ more) :
    DeclaredOnce env env' scope more met :=
  ⟨once.grows, once.new, fun d member => (once.inside d member).imp_right (subset d.scope),
    once.nodup⟩

theorem append {middle : Env} {ids' : List NodeId} {met met' : List Declaration}
    (before : DeclaredOnce env middle scope ids met)
    (behind : DeclaredOnce middle env' scope ids' met')
    (distinct : (scope :: (ids ++ ids')).Nodup) :
    DeclaredOnce env env' scope (ids ++ ids') (met ++ met') := by
  obtain ⟨fresh, apart⟩ := nodup_cons.mp distinct
  obtain ⟨-, -, apart⟩ := nodup_append.mp apart
  rw [mem_append, not_or] at fresh
  refine ⟨fun name declared => behind.grows name (before.grows name declared), ?_, ?_, ?_⟩
  · intro d member here
    rcases mem_append.mp member with earlier | later
    · obtain ⟨new, declared⟩ := before.new d earlier here
      exact ⟨new, behind.grows _ declared⟩
    · obtain ⟨new, declared⟩ := behind.new d later here
      refine ⟨?_, declared⟩
      rw [← Bool.not_eq_true] at new ⊢
      exact fun earlier => new (before.grows _ earlier)
  · intro d member
    rw [mem_append]
    rcases mem_append.mp member with earlier | later
    · exact (before.inside d earlier).imp_right .inl
    · exact (behind.inside d later).imp_right .inr
  · rw [map_append]
    refine nodup_append.mpr ⟨before.nodup, behind.nodup, ?_⟩
    intro place earlier place' later same
    obtain ⟨d, member, rfl⟩ := mem_map.mp earlier
    obtain ⟨d', member', rfl⟩ := mem_map.mp later
    obtain ⟨sameScope, sameName⟩ := Prod.mk.inj same
    rcases before.inside d member with here | inner
    · -- The second of the two would be a second declaration in the scope itself.
      have declared := (before.new d member here).2
      rw [sameName, (behind.new d' member' (sameScope ▸ here)).1] at declared
      cases declared
    · rcases behind.inside d' member' with here | inner'
      · exact fresh.1 (here ▸ sameScope ▸ inner)
      · exact apart _ inner _ inner' sameScope

end DeclaredOnce

namespace Stmt

theorem declaredOnce_list
    (each : ∀ s ∈ stmts, ∀ names outer scope live, s.WellScoped (names :: outer) →
      (scope :: s.nodeIds).Nodup →
      DeclaredOnce (names :: outer) (s.declare (names :: outer)) scope s.nodeIds (s.met scope live))
    (live : Bool) (wellScoped : WellScopedList (names :: outer) stmts)
    (distinct : (scope :: nodeIdsOfList stmts).Nodup) :
    DeclaredOnce (names :: outer) (declareAll (names :: outer) stmts) scope (nodeIdsOfList stmts)
      (metInList scope live stmts) := by
  induction stmts generalizing names live with
  | nil =>
    rw [metInList]
    exact .none _ _ _
  | cons s rest ih =>
    rw [WellScopedList] at wellScoped
    rw [nodeIdsOfList_cons] at distinct ⊢
    rw [metInList]
    have head := each s (by simp) names outer scope live wellScoped.1
      (distinct.sublist (by simp))
    obtain ⟨names', same⟩ := s.declare_cons names outer
    have tail := ih (fun s member => each s (by simp [member])) (live && !s.closes)
      (same ▸ wellScoped.2) (distinct.sublist (by simp))
    rw [same] at head
    refine head.append ?_ distinct
    rw [declareAll, foldl_cons, same]
    exact tail

theorem declaredOnce (s : Stmt) (names : List (Text × Declared)) (outer : Env) (scope : NodeId)
    (live : Bool) (wellScoped : s.WellScoped (names :: outer)) (distinct : (scope :: s.nodeIds).Nodup) :
    DeclaredOnce (names :: outer) (s.declare (names :: outer)) scope s.nodeIds
      (s.met scope live) := by
  induction s using Stmt.induction generalizing names outer scope live with
  | block node stmts each =>
    rw [WellScoped] at wellScoped
    rw [nodeIds_block] at distinct ⊢
    obtain ⟨fresh, distinct⟩ := nodup_cons.mp distinct
    have inner := declaredOnce_list each live wellScoped distinct
    rw [met]
    have inside : ∀ d ∈ metInList node.id live stmts, d.scope ∈ node.id :: nodeIdsOfList stmts :=
      fun d member => mem_cons.mpr (inner.inside d member)
    refine ⟨fun _ declared => declared, fun d member here => ?_, fun d member => .inr ?_,
      inner.nodup⟩
    · exact absurd (here ▸ inside d member) fresh
    · exact inside d member
  | decl node mutable name type value =>
    rw [WellScoped] at wellScoped
    have added : Env.declare (names :: outer) name ⟨node.id, mutable⟩ =
        ((name, ⟨node.id, mutable⟩) :: names) :: outer := if_neg (by simp [wellScoped.2])
    rw [met, declare, added]
    refine ⟨fun other declared => ?_, fun d member _ => ?_, fun d member => .inl ?_, by simp⟩
    · rw [Env.declares, lookup_cons]
      split
      · rfl
      · exact declared
    · cases mem_singleton.mp member
      exact ⟨wellScoped.2, by simp [Env.declares]⟩
    · cases mem_singleton.mp member
      rfl
  | cond node test yes no yesIH noIH =>
    rw [WellScoped] at wellScoped
    rw [nodeIds_cond] at distinct ⊢
    have branches : (scope :: (yes.nodeIds ++ no.nodeIds)).Nodup :=
      distinct.sublist (((sublist_append_right ..).cons _).cons_cons _)
    obtain ⟨names', same⟩ := yes.declare_cons names outer
    have onYes := yesIH names outer scope live wellScoped.2.1 (branches.sublist (by simp))
    have onNo := noIH names' outer scope live (same ▸ wellScoped.2.2) (branches.sublist (by simp))
    rw [same] at onYes
    rw [met, declare, same]
    exact (onYes.append onNo branches).mono fun id member =>
      mem_cons_of_mem _ (mem_append_right _ member)
  | loop node test body bodyIH =>
    rw [WellScoped] at wellScoped
    rw [nodeIds_loop] at distinct ⊢
    rw [met, declare]
    have inBody : (scope :: body.nodeIds).Nodup :=
      distinct.sublist (((sublist_append_right ..).cons _).cons_cons _)
    exact (bodyIH names outer scope live wellScoped.2 inBody).mono fun id member =>
      mem_cons_of_mem _ (mem_append_right _ member)
  | _ =>
    simp only [met]
    exact .none _ _ _

end Stmt

theorem Module.WellScoped.function {m : Module} (wellScoped : m.WellScoped) {f : Func}
    (member : some f ∈ m.entries) : f.WellScoped := by
  obtain ⟨_, same, inFunction⟩ := wellScoped _ member
  cases same
  exact inFunction

namespace Lowering

variable {st st' : State}

variable {f : Func}

theorem func_allots {module : NodeId} {t t' : Table} {g : Ir.Func} (coherent : t.Coherent)
    (ran : func module t f = (.ok g, t')) :
    t'.Coherent ∧ (∀ d ∈ f.met, (storageType? d.type).isSome) ∧
      g.locals = Declaration.slots f.met ∧
      (∀ place ∉ f.met.map Declaration.place, t'.recorded? place = t.recorded? place) ∧
      ((f.met.map Declaration.place).Nodup →
        ∀ r ∈ Declaration.records 0 f.met, t'.recorded? r.place = some r.binding) := by
  obtain ⟨coherent', storable, locals, recorded⟩ := func_books coherent ran
  refine ⟨coherent', storable, locals, fun place other => ?_, fun once r member => ?_⟩
  · rw [← places_records 0, ← lastAt?_isSome, Bool.not_eq_true, isSome_eq_false_iff,
      isNone_iff_eq_none] at other
    rw [recorded, other, none_or]
  · rw [recorded, lastAt?_of_nodup (by rwa [places_records]) member, some_or]

theorem InTurn.elsewhere {module : NodeId} (turn : InTurn module table entries funcs last)
    (coherent : table.Coherent)
    (other : ∀ f, some f ∈ entries → place ∉ f.met.map Declaration.place) :
    last.recorded? place = table.recorded? place := by
  induction turn with
  | nil => rfl
  | cons head tail ih =>
    obtain ⟨coherent', -, -, kept, -⟩ := func_allots coherent head
    rw [ih coherent' fun f member => other f (by simp [member]), kept _ (other _ (by simp))]

theorem InTurn.recorded {module : NodeId} (turn : InTurn module table entries funcs last)
    (coherent : table.Coherent)
    (apart : entries.Pairwise fun entry later => ∀ f, entry = some f → ∀ f', later = some f' → ∀
      place ∈ f.met.map Declaration.place, place ∉ f'.met.map Declaration.place) {i : Nat}
    (listed : entries[i]? = some (some f)) :
    ∃ g before after, funcs[i]? = some g ∧ before.Coherent ∧
      func module before f = (.ok g, after) ∧
      ∀ place ∈ f.met.map Declaration.place, last.recorded? place = after.recorded? place := by
  induction turn generalizing i with
  | nil => cases listed
  | @cons before after _ first g rest _ head tail ih =>
    obtain ⟨coherent', -⟩ := func_allots coherent head
    obtain ⟨fromOthers, apart⟩ := pairwise_cons.mp apart
    cases i with
    | zero =>
      cases listed
      refine ⟨g, before, after, rfl, coherent, head, fun place member => ?_⟩
      exact tail.elsewhere coherent' fun f' later => fromOthers _ later f rfl f' rfl place member
    | succ i => exact ih coherent' apart listed

end Lowering

/-- A slot has the name of its declaration, and a type for the values of the declared one. -/
def Declaration.Fits (d : Declaration) (slot : Ir.Slot) : Prop :=
  slot.name = d.name ∧ (d.type = .int ∧ slot.type = .i32 ∨ d.type = .bool ∧ slot.type = .i1)

namespace Declaration

variable {met : List Declaration}

end Declaration

namespace Lowering

/-- Two variables of one name, the inner one with an initial value from the outer one, and a
declaration behind a return. -/
def layers : Func where
  id := 2
  name := [102]
  result := .int
  body := .block ⟨3, []⟩ (some [
    .decl ⟨4, []⟩ true [120] .int (.int ⟨5, []⟩ 1),
    .loop ⟨6, []⟩ (.binary ⟨7, []⟩ .lt (.ident ⟨8, []⟩ [120]) (.int ⟨9, []⟩ 3))
      (.block ⟨10, []⟩ (some [
        .decl ⟨11, []⟩ false [120] .bool
          (.binary ⟨12, []⟩ .eq (.ident ⟨13, []⟩ [120]) (.int ⟨14, []⟩ 2)),
        .cond ⟨15, []⟩ (.ident ⟨16, []⟩ [120])
          (.block ⟨17, []⟩ (some [
            .ret ⟨18, []⟩ (.int ⟨19, []⟩ 7),
            .decl ⟨20, []⟩ false [121] .int (.ident ⟨21, []⟩ [120])]))
          .absent])),
    .assign ⟨22, []⟩ (.ident ⟨23, []⟩ [120])
      (.binary ⟨24, []⟩ .add (.ident ⟨25, []⟩ [120]) (.int ⟨26, []⟩ 1)),
    .ret ⟨27, []⟩ (.ident ⟨28, []⟩ [120])])

def layered : Module := { id := 1, name := [109], funcs := some [some layers] }

end Lowering

end MiddleEnd
