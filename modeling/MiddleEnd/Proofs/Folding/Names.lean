import MiddleEnd.Proofs.Folding.Nodes
import MiddleEnd.Proofs.Scoping.Resolution

/-!
What folding does to the meaning of names. A dropped branch may take along a declaration of the
scope around it.
-/

namespace MiddleEnd

open List Option Scoping

variable {kept : NodeId → Bool}

namespace Env

/-- The environment without the declarations that are not kept. -/
def restrict (kept : NodeId → Bool) (env : Env) : Env :=
  env.map fun names => names.filter fun entry => kept entry.2.node

variable {name : Text} {d : Declared} {env : Env}

theorem lookup_filter {names : List (Text × Declared)}
    (keeps : ∀ d, names.lookup name = some d → kept d.node = true) :
    (names.filter fun entry => kept entry.2.node).lookup name = names.lookup name := by
  induction names with
  | nil => rfl
  | cons entry rest ih =>
    obtain ⟨key, e⟩ := entry
    rw [lookup_cons] at keeps ⊢
    by_cases same : name = key
    · subst same
      rw [beq_self_eq_true] at keeps
      simp [keeps e rfl]
    · rw [beq_eq_false_iff_ne.mpr same] at keeps ⊢
      rw [filter_cons]
      split
      · rw [lookup_cons, beq_eq_false_iff_ne.mpr same]
        exact ih keeps
      · exact ih keeps

theorem find?_restrict (means : env.find? name = some d) (keeps : kept d.node = true) :
    (env.restrict kept).find? name = some d := by
  induction env with
  | nil => cases means
  | cons names outer ih =>
    rw [find?_cons] at means
    rw [restrict, map_cons, find?_cons]
    cases found : names.lookup name with
    | some e =>
      rw [found, some_or] at means
      cases means
      rw [lookup_filter (by simp [found, keeps]), found, some_or]
    | none =>
      rw [found, none_or] at means
      rw [lookup_filter (by simp [found]), found, none_or]
      exact ih means

theorem declares_restrict (fresh : env.declares name = false) :
    (env.restrict kept).declares name = false := by
  cases env with
  | nil => rfl
  | cons names outer =>
    simp only [declares, isSome_eq_false_iff, isNone_iff_eq_none] at fresh
    simp [restrict, declares, lookup_filter, fresh]

theorem declare_restrict (fresh : env.declares name = false) (keeps : kept d.node = true) :
    (env.restrict kept).declare name d = (env.declare name d).restrict kept := by
  have fresh' : (env.restrict kept).declares name = false := declares_restrict fresh
  cases env with
  | nil => rfl
  | cons names outer =>
    simp only [restrict, map_cons] at fresh'
    simp [declare, fresh, restrict, fresh', keeps]

theorem restrict_declare (name : Text) (drops : kept d.node = false) :
    (env.declare name d).restrict kept = env.restrict kept := by
  cases env with
  | nil => rfl
  | cons names outer =>
    simp only [declare]
    split
    · rfl
    · simp [restrict, drops]

end Env

theorem Stmt.restrict_declare {s : Stmt} (drops : ∀ d ∈ s.declarations, kept d = false)
    (env : Env) : (s.declare env).restrict kept = env.restrict kept := by
  induction s using Stmt.induction generalizing env with
  | decl node mutable name type value => exact Env.restrict_declare name (drops _ (by simp))
  | cond node test yes no yesIH noIH =>
    rw [declarations_cond] at drops
    rw [declare, noIH fun d member => drops d (mem_append_right _ member),
      yesIH fun d member => drops d (mem_append_left _ member)]
  | loop node test body bodyIH =>
    rw [declarations_loop] at drops
    exact bodyIH drops env
  | absent | bare | block | assign | ret | unknown => rfl

/-- Of these declarations, each once, exactly the second ones are kept. -/
structure Keeps (kept : NodeId → Bool) (ids ids' : List NodeId) : Prop where
  nodup : ids.Nodup
  keeps : ∀ id ∈ ids, kept id = true ↔ id ∈ ids'

namespace Keeps

variable {first second first' second' : List NodeId}

theorem left (keeps : Keeps kept (first ++ second) (first' ++ second'))
    (subset : second' ⊆ second) : Keeps kept first first' where
  nodup := (nodup_append.mp keeps.nodup).1
  keeps id member := by
    rw [keeps.keeps id (mem_append_left _ member), mem_append]
    constructor
    · rintro (here | there)
      · exact here
      · exact absurd rfl ((nodup_append.mp keeps.nodup).2.2 id member id (subset there))
    · exact .inl

theorem right (keeps : Keeps kept (first ++ second) (first' ++ second'))
    (subset : first' ⊆ first) : Keeps kept second second' where
  nodup := (nodup_append.mp keeps.nodup).2.1
  keeps id member := by
    rw [keeps.keeps id (mem_append_right _ member), mem_append]
    constructor
    · rintro (here | there)
      · exact absurd rfl ((nodup_append.mp keeps.nodup).2.2 id (subset here) id member)
      · exact there
    · exact .inr

theorem dropped (keeps : Keeps kept ids []) : ∀ id ∈ ids, kept id = false := by
  intro id member
  cases here : kept id with
  | false => rfl
  | true => cases (keeps.keeps id member).mp here

end Keeps

/-- Every identifier of the second list stands in the first, and means the same if the declaration
that it means there is kept. -/
def UsesKept (kept : NodeId → Bool) (uses uses' : List (NodeId × Option NodeId)) : Prop :=
  ∀ u d', (u, d') ∈ uses' →
    ∃ d, (u, d) ∈ uses ∧ ∀ id, d = some id → kept id = true → d' = some id

/-- These identifiers mean kept declarations only. -/
def MeanKept (kept : NodeId → Bool) (ids : List NodeId) (uses : List (NodeId × Option NodeId)) :
    Prop :=
  ∀ u d, u ∈ ids → (u, some d) ∈ uses → kept d = true

theorem UsesKept.append (first : UsesKept kept uses uses') (second : UsesKept kept more more') :
    UsesKept kept (uses ++ more) (uses' ++ more') := by
  intro u d' member
  rcases mem_append.mp member with inFirst | inSecond
  · obtain ⟨d, means, same⟩ := first u d' inFirst
    exact ⟨d, mem_append_left _ means, same⟩
  · obtain ⟨d, means, same⟩ := second u d' inSecond
    exact ⟨d, mem_append_right _ means, same⟩

theorem UsesKept.mono (usesKept : UsesKept kept uses uses') (subset : uses ⊆ more) :
    UsesKept kept more uses' := by
  intro u d' member
  obtain ⟨d, means, same⟩ := usesKept u d' member
  exact ⟨d, subset means, same⟩

theorem MeanKept.mono (meanKept : MeanKept kept ids uses) (ids_subset : fewer ⊆ ids)
    (uses_subset : less ⊆ uses) : MeanKept kept fewer less :=
  fun u d member means => meanKept u d (ids_subset member) (uses_subset means)

namespace Expr

theorem usesKept_restrict (env : Env) (e : Expr) :
    UsesKept kept (e.uses env) (e.uses (env.restrict kept)) := by
  induction e with
  | ident node name =>
    intro u d' member
    simp only [uses, mem_singleton, Prod.mk.injEq] at member
    obtain ⟨rfl, rfl⟩ := member
    refine ⟨_, mem_singleton.mpr rfl, fun id means keeps => ?_⟩
    obtain ⟨d, found, rfl⟩ := map_eq_some_iff.mp means
    rw [Env.find?_restrict found keeps]
    rfl
  | unary node op operand ih => exact ih
  | binary node op left right leftIH rightIH => exact leftIH.append rightIH
  | _ => simp [uses, UsesKept]

variable {env : Env}

theorem resolved_of_uses {e : Expr} (each : ∀ use ∈ e.uses env, use.2.isSome) : e.Resolved env := by
  induction e with
  | ident node name => simpa [uses, Resolved] using each
  | unary node op operand ih => exact ih each
  | binary node op left right leftIH rightIH =>
    exact ⟨leftIH fun use member => each use (mem_append_left _ member),
      rightIH fun use member => each use (mem_append_right _ member)⟩
  | _ => trivial

theorem resolved_restrict {e : Expr} (equation : e.fold = .ok folded) (resolved : e.Resolved env)
    (meanKept : MeanKept kept folded.identifiers (e.uses env)) :
    folded.Resolved (env.restrict kept) := by
  refine resolved_of_uses fun use member => ?_
  obtain ⟨u, d'⟩ := use
  have inFolded : u ∈ folded.identifiers := by
    rw [← folded.map_fst_uses (env.restrict kept)]
    exact mem_map.mpr ⟨_, member, rfl⟩
  rw [uses_fold equation] at member
  obtain ⟨d, means, same⟩ := usesKept_restrict env e u d' member
  obtain ⟨id, rfl⟩ := isSome_iff_exists.mp (resolved.uses _ means)
  simp [same id rfl (meanKept u id inFolded means)]

theorem assignable_restrict {target : Expr} (equation : target.fold = .ok folded)
    (assignable : target.Assignable env)
    (meanKept : MeanKept kept folded.identifiers (target.uses env)) :
    folded.Assignable (env.restrict kept) := by
  cases target with
  | absent =>
    cases equation
    trivial
  | ident node name =>
    cases equation
    obtain ⟨d, means, mutable⟩ := assignable
    refine ⟨d, Env.find?_restrict means (meanKept node.id d.node ?_ ?_), mutable⟩
    · exact mem_singleton.mpr rfl
    · simp [uses, means]
  | _ => exact assignable.elim

end Expr

namespace Stmt

/-- In the environment without the declarations that were dropped, statement `s'` scopes as `s`
does. -/
structure Restricts (kept : NodeId → Bool) (env : Env) (s s' : Stmt) : Prop where
  declare : s'.declare (env.restrict kept) = (s.declare env).restrict kept
  uses : UsesKept kept (s.uses env) (s'.uses (env.restrict kept))
  wellScoped : MeanKept kept s'.identifiers (s.uses env) → s'.WellScoped (env.restrict kept)

theorem restricts_list (equation : foldList stmts = .ok folded)
    (each : ∀ s ∈ stmts, ∀ s', fold s = .ok s' → ∀ env, s.WellScoped env →
      Keeps kept s.declarations s'.declarations → Restricts kept env s s')
    (wellScoped : WellScopedList env stmts)
    (keeps : Keeps kept (declarationsOfList stmts) (declarationsOfList folded)) :
    UsesKept kept (usesOfList env stmts) (usesOfList (env.restrict kept) folded) ∧
      (MeanKept kept (identifiersOfList folded) (usesOfList env stmts) →
        WellScopedList (env.restrict kept) folded) := by
  induction stmts generalizing folded env with
  | nil =>
    cases equation
    simp [usesOfList, UsesKept, WellScopedList]
  | cons s rest ih =>
    obtain ⟨s', rest', headFolded, restFolded, shape⟩ := foldList_cons equation
    simp only [WellScopedList] at wellScoped
    -- A statement that folds to nothing scopes as the empty statement in its place.
    have whole : Keeps kept (declarationsOfList (s :: rest)) (declarationsOfList (s' :: rest')) →
        UsesKept kept (usesOfList env (s :: rest))
            (usesOfList (env.restrict kept) (s' :: rest')) ∧
          (MeanKept kept (identifiersOfList (s' :: rest')) (usesOfList env (s :: rest)) →
            WellScopedList (env.restrict kept) (s' :: rest')) := by
      intro keeps
      rw [declarationsOfList_cons, declarationsOfList_cons] at keeps
      have head := each s (by simp) s' headFolded env wellScoped.1
        (keeps.left (declarationsOfList_fold restFolded))
      obtain ⟨tailUses, tailScoped⟩ := ih restFolded (fun s member => each s (by simp [member]))
        wellScoped.2 (keeps.right (declarations_fold headFolded))
      simp only [usesOfList, identifiersOfList_cons, WellScopedList, head.declare]
      refine ⟨head.uses.append tailUses, fun meanKept => ⟨head.wellScoped ?_, tailScoped ?_⟩⟩
      · exact meanKept.mono (subset_append_left ..) (subset_append_left ..)
      · exact meanKept.mono (subset_append_right ..) (subset_append_right ..)
    rcases shape with ⟨rfl, rfl⟩ | rfl
    · simpa [usesOfList, Stmt.uses, WellScopedList, WellScoped, Stmt.declare] using
        whole (by simpa using keeps)
    · exact whole keeps

theorem restricts {s : Stmt} (equation : fold s = .ok folded) (wellScoped : s.WellScoped env)
    (keeps : Keeps kept s.declarations folded.declarations) : Restricts kept env s folded := by
  induction s using Stmt.induction generalizing folded env with
  | absent =>
    cases equation
    exact ⟨rfl, by simp [Stmt.uses, UsesKept], fun _ => by simp [WellScoped]⟩
  | bare node =>
    cases equation
    exact ⟨rfl, by simp [emptyBlock, Stmt.uses, usesOfList, UsesKept],
      fun _ => by simp [emptyBlock, WellScoped, WellScopedList]⟩
  | block node stmts each =>
    obtain ⟨stmts', stmtsFolded, rfl⟩ := fold_block equation
    simp only [WellScoped] at wellScoped
    rw [declarations_block, declarations_block] at keeps
    obtain ⟨inside, insideScoped⟩ := restricts_list stmtsFolded
      (fun s member s' folded env => each s member folded) wellScoped keeps
    refine ⟨rfl, ?_, ?_⟩
    · simp only [Stmt.uses]
      exact inside
    · simp only [Stmt.uses, identifiers_block, WellScoped]
      exact insideScoped
  | decl node mutable name type value =>
    obtain ⟨value', valueFolded, rfl⟩ := fold_decl equation
    simp only [WellScoped] at wellScoped
    rw [declarations_decl, declarations_decl] at keeps
    have isKept := (keeps.keeps node.id (by simp)).mpr (by simp)
    refine ⟨Env.declare_restrict wellScoped.2 isKept, ?_, ?_⟩
    · simp only [Stmt.uses, Expr.uses_fold valueFolded]
      exact value.usesKept_restrict env
    · simp only [Stmt.uses, identifiers_decl, WellScoped]
      exact fun meanKept => ⟨Expr.resolved_restrict valueFolded wellScoped.1 meanKept,
        Env.declares_restrict wellScoped.2⟩
  | assign node target value =>
    obtain ⟨target', value', targetFolded, valueFolded, rfl⟩ := fold_assign equation
    simp only [WellScoped] at wellScoped
    refine ⟨rfl, ?_, ?_⟩
    · simp only [Stmt.uses, Expr.uses_fold targetFolded, Expr.uses_fold valueFolded]
      exact (target.usesKept_restrict env).append (value.usesKept_restrict env)
    · simp only [Stmt.uses, identifiers_assign, WellScoped]
      refine fun meanKept => ⟨Expr.assignable_restrict targetFolded wellScoped.1 ?_,
        Expr.resolved_restrict valueFolded wellScoped.2 ?_⟩
      · exact meanKept.mono (subset_append_left ..) (subset_append_left ..)
      · exact meanKept.mono (subset_append_right ..) (subset_append_right ..)
  | ret node value =>
    obtain ⟨value', valueFolded, rfl⟩ := fold_ret equation
    simp only [WellScoped] at wellScoped
    refine ⟨rfl, ?_, ?_⟩
    · simp only [Stmt.uses, Expr.uses_fold valueFolded]
      exact value.usesKept_restrict env
    · simp only [Stmt.uses, identifiers_ret, WellScoped]
      exact Expr.resolved_restrict valueFolded wellScoped
  | cond node test yes no yesIH noIH =>
    simp only [WellScoped] at wellScoped
    obtain ⟨testResolved, yesScoped, noScoped⟩ := wellScoped
    rw [declarations_cond] at keeps
    rcases fold_cond equation with ⟨n, testFolded, taken⟩ | ⟨n, testFolded, taken⟩ |
      ⟨test', yes', no', testFolded, yesFolded, noFolded, rfl⟩
    · rw [← append_nil folded.declarations] at keeps
      have inYes := yesIH taken yesScoped (keeps.left (by simp))
      have dropped := (keeps.right (declarations_fold taken)).dropped
      have subset : yes.uses env ⊆ (Stmt.cond node test yes no).uses env := by
        intro use member
        simp [Stmt.uses, member]
      refine ⟨?_, inYes.uses.mono subset, fun meanKept => inYes.wellScoped ?_⟩
      · rw [Stmt.declare, restrict_declare dropped, inYes.declare]
      · exact meanKept.mono (List.Subset.refl _) subset
    · rw [← nil_append folded.declarations] at keeps
      have inNo := noIH taken noScoped (keeps.right (by simp))
      have dropped := (keeps.left (declarations_fold taken)).dropped
      have subset : no.uses (yes.declare env) ⊆ (Stmt.cond node test yes no).uses env := by
        intro use member
        simp [Stmt.uses, member]
      have same := restrict_declare dropped env
      refine ⟨?_, ?_, fun meanKept => ?_⟩
      · rw [Stmt.declare, ← inNo.declare, same]
      · rw [← same]
        exact inNo.uses.mono subset
      · rw [← same]
        exact inNo.wellScoped (meanKept.mono (List.Subset.refl _) subset)
    · rw [declarations_cond, declarations_orEmpty, declarations_orEmpty] at keeps
      have inYes := yesIH yesFolded yesScoped (keeps.left (declarations_fold noFolded))
      have inNo := noIH noFolded noScoped (keeps.right (declarations_fold yesFolded))
      refine ⟨?_, ?_, ?_⟩
      · simp only [Stmt.declare, declare_orEmpty, inYes.declare, inNo.declare]
      · simp only [Stmt.uses, uses_orEmpty, declare_orEmpty, inYes.declare,
          Expr.uses_fold testFolded]
        exact ((test.usesKept_restrict env).append inYes.uses).append inNo.uses
      · simp only [Stmt.uses, identifiers_cond, identifiers_orEmpty, WellScoped,
          wellScoped_orEmpty, declare_orEmpty, inYes.declare]
        intro meanKept
        refine ⟨Expr.resolved_restrict testFolded testResolved (meanKept.mono ?_ ?_),
          inYes.wellScoped (meanKept.mono ?_ ?_), inNo.wellScoped (meanKept.mono ?_ ?_)⟩
        all_goals intro _ member; simp [member]
  | loop node test body bodyIH =>
    obtain ⟨test', body', testFolded, bodyFolded, rfl⟩ := fold_loop equation
    simp only [WellScoped] at wellScoped
    rw [declarations_loop, declarations_loop, declarations_orEmpty] at keeps
    have inBody := bodyIH bodyFolded wellScoped.2 keeps
    refine ⟨?_, ?_, ?_⟩
    · simp only [Stmt.declare, declare_orEmpty, inBody.declare]
    · simp only [Stmt.uses, uses_orEmpty, Expr.uses_fold testFolded]
      exact (test.usesKept_restrict env).append inBody.uses
    · simp only [Stmt.uses, identifiers_loop, identifiers_orEmpty, WellScoped, wellScoped_orEmpty]
      refine fun meanKept => ⟨Expr.resolved_restrict testFolded wellScoped.1 ?_,
        inBody.wellScoped ?_⟩
      · exact meanKept.mono (subset_append_left ..) (subset_append_left ..)
      · exact meanKept.mono (subset_append_right ..) (subset_append_right ..)
  | unknown node kind => cases equation

end Stmt

namespace Func.FoldAll

variable {fs fs' : List Func}

theorem declarations (folded : FoldAll fs fs') :
    fs'.flatMap (fun f => f.body.declarations) ⊆ fs.flatMap fun f => f.body.declarations := by
  induction folded with
  | nil => exact List.Subset.refl _
  | cons head tail ih =>
    obtain ⟨body, bodyFolded, rfl⟩ := Func.fold_eq_ok head
    simp only [flatMap_cons, Stmt.declarations_orEmpty]
    exact append_subset.mpr
      ⟨fun d member => mem_append_left _ (Stmt.declarations_fold bodyFolded member),
        fun d member => mem_append_right _ (ih member)⟩

theorem restricts (folded : FoldAll fs fs') (wellScoped : ∀ f ∈ fs, f.WellScoped)
    (keeps : Keeps kept (fs.flatMap fun f => f.body.declarations)
      (fs'.flatMap fun f => f.body.declarations)) :
    UsesKept kept (fs.flatMap Func.uses) (fs'.flatMap Func.uses) ∧
      (MeanKept kept (fs'.flatMap fun f => f.body.identifiers) (fs.flatMap Func.uses) →
        ∀ f ∈ fs', f.WellScoped) := by
  induction folded with
  | nil => simp [UsesKept]
  | @cons f f' rest rest' head tail ih =>
    obtain ⟨body, bodyFolded, rfl⟩ := Func.fold_eq_ok head
    simp only [flatMap_cons, Stmt.declarations_orEmpty, Stmt.identifiers_orEmpty] at keeps ⊢
    have here := Stmt.restricts bodyFolded (wellScoped f (by simp))
      (keeps.left tail.declarations)
    obtain ⟨restUses, restScoped⟩ := ih (fun f member => wellScoped f (by simp [member]))
      (keeps.right (Stmt.declarations_fold bodyFolded))
    refine ⟨UsesKept.append ?_ restUses, fun meanKept => forall_mem_cons.mpr ⟨?_, ?_⟩⟩
    · simp only [Func.uses, Stmt.uses_orEmpty]
      exact here.uses
    · simp only [Func.WellScoped, Stmt.wellScoped_orEmpty]
      exact here.wellScoped
        (meanKept.mono (subset_append_left ..) (subset_append_left ..))
    · exact restScoped
        (meanKept.mono (subset_append_right ..) (subset_append_right ..))

theorem uses (folded : FoldAll fs fs') (braced : ∀ f ∈ fs, f.body.Braced) :
    fs'.flatMap Func.uses ⊆ fs.flatMap Func.uses := by
  induction folded with
  | nil => exact List.Subset.refl _
  | @cons f f' rest rest' head tail ih =>
    obtain ⟨body, bodyFolded, rfl⟩ := Func.fold_eq_ok head
    have here := Stmt.uses_fold (braced f (by simp)) bodyFolded .ofFunction
    simp only [flatMap_cons, Func.uses, Stmt.uses_orEmpty]
    exact append_subset.mpr ⟨fun use member => mem_append_left _ (here member),
      fun use member => mem_append_right _
        (ih (fun f member => braced f (by simp [member])) member)⟩

end Func.FoldAll

namespace Module

variable {m m' : Module}

theorem fold_complete (complete : none ∉ m.entries) (equation : m.fold = .ok m') :
    ∃ fs fs' : List Func, m.entries = fs.map some ∧ m'.entries = fs'.map some ∧ m'.id = m.id ∧
      Func.FoldAll fs fs' := by
  obtain ⟨funcs, entriesFolded, rfl⟩ := fold_eq_ok equation
  obtain ⟨fs, all⟩ := (entries_cases m.entries).resolve_left complete
  rw [all] at entriesFolded
  obtain ⟨fs', rfl, folded⟩ := foldEntries_map_some entriesFolded
  exact ⟨fs, fs', all, rfl, rfl, folded⟩

theorem Numbered.fold (numbered : m.Numbered) (complete : none ∉ m.entries)
    (equation : m.fold = .ok m') : m'.Numbered := by
  obtain ⟨fs, fs', all, all', sameId, folded⟩ := fold_complete complete equation
  have sublist : m'.nodeIds.Sublist m.nodeIds := by
    simp only [nodeIds_eq, all, all', sameId, flatMap_map, elim_some]
    exact folded.nodeIds.cons_cons _
  exact ⟨numbered.1.sublist sublist, fun zero => numbered.2 (sublist.subset zero)⟩

theorem Numbered.declarations (numbered : m.Numbered) : m.declarations.Nodup :=
  numbered.1.sublist
    ((Visited.filterMap_sublist (fun _ _ => Visited.id_of_decl?) m.nodes).cons _)

theorem fold_restricts (numbered : m.Numbered) (wellScoped : m.WellScoped)
    (equation : m.fold = .ok m') :
    UsesKept (fun d => decide (d ∈ m'.declarations)) m.uses m'.uses ∧
      (MeanKept (fun d => decide (d ∈ m'.declarations)) m'.identifiers m.uses →
        m'.WellScoped) := by
  obtain ⟨fs, fs', all, all', -, folded⟩ := fold_complete wellScoped.complete equation
  have keeps : Keeps (fun d => decide (d ∈ m'.declarations)) m.declarations m'.declarations :=
    ⟨numbered.declarations, by simp⟩
  generalize (fun d => decide (d ∈ m'.declarations)) = kept at keeps ⊢
  simp only [declarations_eq, identifiers_eq, uses, WellScoped, all, all', flatMap_map,
    elim_some, List.forall_mem_map, Option.some.injEq, exists_eq_left'] at keeps wellScoped ⊢
  exact folded.restricts wellScoped keeps

theorem uses_fold (complete : none ∉ m.entries) (equation : m.fold = .ok m')
    (braced : ∀ f, some f ∈ m.entries → f.body.Braced) : m'.uses ⊆ m.uses := by
  obtain ⟨fs, fs', all, all', -, folded⟩ := fold_complete complete equation
  simp only [all, List.mem_map, Option.some.injEq, exists_eq_right] at braced
  simp only [uses, all, all', flatMap_map, elim_some]
  exact folded.uses braced

theorem mem_identifiers : u ∈ m.identifiers ↔ ∃ d, (u, d) ∈ m.uses := by
  simp [← map_fst_uses]

end Module

/-- Module `m'` is accepted, and each of its identifiers is resolved to the binding of the same
declaration as in `m`. -/
structure SameMeaning (m m' : Module) : Prop where
  accepted : ∃ table, Table.ofModule m' = .ok table
  resolved : ∀ u ∈ m'.identifiers, ∃ d, Resolves m' u d
  same : ∀ u ∈ m'.identifiers, ∀ d, Resolves m' u d ↔ Resolves m u d

/-- Folding keeps the meaning of names exactly if no identifier that is left means a declaration
that was dropped; without declarations as branches, it always does. -/
theorem fold_sameMeaning_iff {m m' : Module} {table : Table} (numbered : m.Numbered)
    (accepted : Table.ofModule m = .ok table) (equation : m.fold = .ok m') :
    (SameMeaning m m' ↔
      ∀ u ∈ m'.identifiers, ∀ d, Resolves m u d → d ∈ m'.declarations) ∧
    ((∀ f, some f ∈ m.entries → f.body.Braced) → SameMeaning m m') := by
  have wellScoped := (Table.ofModule_eq_ok numbered accepted).1
  have numbered' := numbered.fold wellScoped.complete equation
  have complete' : none ∉ m'.entries := by
    obtain ⟨fs, fs', -, all', -⟩ := Module.fold_complete wellScoped.complete equation
    simp [all']
  have resolves := resolves_iff numbered wellScoped.complete
  have resolves' := resolves_iff numbered' complete'
  obtain ⟨usesKept, scopedIfKept⟩ := Module.fold_restricts numbered wellScoped equation
  have characterized : SameMeaning m m' ↔
      ∀ u ∈ m'.identifiers, ∀ d, Resolves m u d → d ∈ m'.declarations := by
    constructor
    · intro sameMeaning u member d resolved
      have resolved' := (sameMeaning.same u member d).mpr resolved
      exact Module.mem_declarations_of_uses ((resolves' u d).mp resolved')
    · intro meanKept
      simp only [resolves] at meanKept
      -- What an identifier of `m'` means in `m` was kept, so that it means it in `m'` too.
      have common : ∀ u ∈ m'.identifiers, ∃ d, (u, some d) ∈ m.uses ∧ (u, some d) ∈ m'.uses := by
        intro u member
        obtain ⟨d', means'⟩ := Module.mem_identifiers.mp member
        obtain ⟨d, means, same⟩ := usesKept u d' means'
        obtain ⟨id, rfl⟩ := isSome_iff_exists.mp (wellScoped.uses _ means)
        cases same id rfl (decide_eq_true (meanKept u member id means))
        exact ⟨id, means, means'⟩
      refine ⟨(Table.ofModule_isOk_iff numbered').mpr (scopedIfKept ?_), ?_, ?_⟩
      · exact fun u d member means => decide_eq_true (meanKept u member d means)
      · intro u member
        obtain ⟨d, -, means'⟩ := common u member
        exact ⟨d, (resolves' u d).mpr means'⟩
      · intro u member e
        obtain ⟨d, means, means'⟩ := common u member
        rw [resolves, resolves']
        constructor
        · intro other
          rwa [numbered'.uses_unique other means']
        · intro other
          rwa [numbered.uses_unique other means]
  refine ⟨characterized, fun braced => characterized.mpr fun u member d resolved => ?_⟩
  obtain ⟨d', means'⟩ := Module.mem_identifiers.mp member
  have means := Module.uses_fold wellScoped.complete equation braced means'
  cases numbered.uses_unique means ((resolves u d).mp resolved)
  exact Module.mem_declarations_of_uses means'

/-- Assigns to a variable that is declared as the branch of a conditional with this test. -/
def declaredInBranch (test : Bool) : Module where
  id := 1
  name := [109]
  funcs := some [some {
    id := 2
    name := [102]
    result := .unit
    body := .block ⟨3, []⟩ (some [
      .cond ⟨4, []⟩ (.bool ⟨5, []⟩ test) (.decl ⟨6, []⟩ true [120] .int .absent) .absent,
      .assign ⟨7, []⟩ (.ident ⟨8, []⟩ [120]) (.int ⟨9, []⟩ 1)]) }]

theorem declaredInBranch_numbered (test : Bool) : (declaredInBranch test).Numbered := by
  cases test <;> exact ⟨by decide, by decide⟩

theorem declaredInBranch_accepted (test : Bool) :
    ∃ table, Table.ofModule (declaredInBranch test) = .ok table := by
  refine (Table.ofModule_isOk_iff (declaredInBranch_numbered test)).mpr ?_
  cases test <;> decide

theorem declaredInBranch_true_sameMeaning :
    ∃ m', (declaredInBranch true).fold = .ok m' ∧ SameMeaning (declaredInBranch true) m' := by
  have numbered := declaredInBranch_numbered true
  obtain ⟨table, accepted⟩ := declaredInBranch_accepted true
  refine ⟨_, rfl, (fold_sameMeaning_iff numbered accepted rfl).1.mpr fun u _ d resolved => ?_⟩
  have complete : none ∉ (declaredInBranch true).entries := by
    simp [declaredInBranch, Module.entries]
  -- Both modules have the same declarations.
  exact Module.mem_declarations_of_uses ((resolves_iff numbered complete u d).mp resolved)

/-- A decided conditional takes the declaration along that a later statement still uses. -/
theorem declaredInBranch_false_not_sameMeaning :
    (declaredInBranch false).Numbered ∧
      (∃ table, Table.ofModule (declaredInBranch false) = .ok table) ∧
        ∃ m', (declaredInBranch false).fold = .ok m' ∧
          ¬ SameMeaning (declaredInBranch false) m' := by
  have numbered := declaredInBranch_numbered false
  refine ⟨numbered, declaredInBranch_accepted false, _, rfl, fun sameMeaning => ?_⟩
  exact absurd ((Table.ofModule_isOk_iff ⟨by decide, by decide⟩).mp sameMeaning.accepted)
    (by decide)

end MiddleEnd
