import MiddleEnd.Proofs.Folding.Cases
import MiddleEnd.Proofs.Scoping.Lexical

/-!
Folding only leaves nodes out: those of a folded tree stand in the same order in the tree it was
folded from.
-/

namespace MiddleEnd

open List

variable {s folded : Stmt} {stmts : List Stmt}

/-- The number of a node, and whether the node is a declaration. -/
def Visited.tag (v : Visited) : NodeId × Bool := (v.id, v.decl?.isSome)

theorem Visited.decl?_eq_tag (v : Visited) :
    v.decl? = if v.tag.2 then some v.tag.1 else none := by
  cases found : v.decl? with
  | none => simp [tag, found]
  | some d => simp [tag, found, id_of_decl? found]

namespace Expr

theorem tags_fold {e folded : Expr} (equation : e.fold = .ok folded) :
    (folded.nodes.map Visited.tag).Sublist (e.nodes.map Visited.tag) := by
  replace equation := folds_of_fold equation
  induction equation with
  | absent | int | bool | ident => exact List.Sublist.refl _
  | complement | negation => exact (nil_sublist _).cons_cons _
  | unary _ _ _ ih => exact ih.cons_cons _
  | @ints _ _ _ _ _ _ v => cases v <;> exact (nil_sublist _).cons_cons _
  | binary _ _ _ _ _ leftIH rightIH =>
    rw [nodes_binary, nodes_binary, map_cons, map_cons, map_append, map_append]
    exact (leftIH.append rightIH).cons_cons _

theorem uses_fold {e folded : Expr} (equation : e.fold = .ok folded) (env : Env) :
    folded.uses env = e.uses env := by
  replace equation := folds_of_fold equation
  induction equation with
  | absent | int | bool | ident => rfl
  | complement _ ih | negation _ ih | unary _ _ _ ih => exact ih
  | @ints _ _ _ _ _ _ v _ _ _ _ _ leftIH rightIH =>
    rw [uses, ← leftIH, ← rightIH]
    cases v <;> rfl
  | binary _ _ _ _ _ leftIH rightIH => rw [uses, uses, leftIH, rightIH]

end Expr

namespace Stmt

def tags (s : Stmt) : List (NodeId × Bool) := s.nodes.map Visited.tag

def tagsOfList (stmts : List Stmt) : List (NodeId × Bool) := (nodesOfList stmts).map Visited.tag

theorem tags_of_fold_absent (equation : fold s = .ok .absent) (present : s ≠ .absent) :
    ∃ rest, s.tags = (s.id, false) :: rest := by
  cases s with
  | absent => exact absurd rfl present
  | block node stmts =>
    cases stmts with
    | none => cases equation
    | some stmts =>
      obtain ⟨_, _, same⟩ := fold_block equation
      cases same
  | decl node mutable name type value =>
    obtain ⟨_, _, same⟩ := fold_decl equation
    cases same
  | assign node target value =>
    obtain ⟨_, _, _, _, same⟩ := fold_assign equation
    cases same
  | ret node value =>
    obtain ⟨_, _, same⟩ := fold_ret equation
    cases same
  | cond node test yes no =>
    rw [tags, nodes_cond]
    exact ⟨_, rfl⟩
  | loop node test body =>
    obtain ⟨_, _, _, _, same⟩ := fold_loop equation
    cases same
  | unknown node kind => cases equation

theorem tags_orEmpty (equation : fold s = .ok folded) (sublist : folded.tags.Sublist s.tags) :
    (orEmpty folded s).tags.Sublist s.tags := by
  rcases orEmpty_cases folded s with kept | ⟨rfl, present, empty⟩
  · rwa [kept]
  · obtain ⟨rest, same⟩ := tags_of_fold_absent equation present
    rw [empty, same, tags, emptyBlock, nodes_block, nodesOfList_nil]
    exact (nil_sublist _).cons_cons _

theorem tags_foldList {folded : List Stmt} (equation : foldList stmts = .ok folded)
    (each : ∀ s ∈ stmts, ∀ s', fold s = .ok s' → s'.tags.Sublist s.tags) :
    (tagsOfList folded).Sublist (tagsOfList stmts) := by
  induction stmts generalizing folded with
  | nil =>
    cases equation
    exact List.Sublist.refl _
  | cons s rest ih =>
    obtain ⟨s', rest', headFolded, restFolded, shape⟩ := foldList_cons equation
    have tail := ih restFolded fun s member => each s (by simp [member])
    have head := each s (by simp) s' headFolded
    simp only [tagsOfList, nodesOfList_cons, map_append] at tail ⊢
    rcases shape with ⟨rfl, rfl⟩ | rfl
    · exact tail.trans (sublist_append_right ..)
    · simp only [nodesOfList_cons, map_append]
      exact head.append tail

theorem tags_fold (equation : fold s = .ok folded) : folded.tags.Sublist s.tags := by
  induction s using Stmt.induction generalizing folded with
  | absent =>
    cases equation
    exact List.Sublist.refl _
  | bare node =>
    cases equation
    simp only [tags, emptyBlock, nodes_block, nodesOfList_nil, nodes_bare]
    exact List.Sublist.refl _
  | block node stmts each =>
    obtain ⟨stmts', stmtsFolded, rfl⟩ := fold_block equation
    rw [tags, tags, nodes_block, nodes_block, map_cons, map_cons]
    exact (tags_foldList stmtsFolded fun s member s' => each s member).cons_cons _
  | decl node mutable name type value =>
    obtain ⟨value', valueFolded, rfl⟩ := fold_decl equation
    rw [tags, tags, nodes_decl, nodes_decl, map_cons, map_cons]
    exact (Expr.tags_fold valueFolded).cons_cons _
  | assign node target value =>
    obtain ⟨target', value', targetFolded, valueFolded, rfl⟩ := fold_assign equation
    simp only [tags, nodes_assign, map_cons, map_append]
    exact ((Expr.tags_fold targetFolded).append (Expr.tags_fold valueFolded)).cons_cons _
  | ret node value =>
    obtain ⟨value', valueFolded, rfl⟩ := fold_ret equation
    rw [tags, tags, nodes_ret, nodes_ret, map_cons, map_cons]
    exact (Expr.tags_fold valueFolded).cons_cons _
  | cond node test yes no yesIH noIH =>
    simp only [tags, nodes_cond, map_cons, map_append] at yesIH noIH ⊢
    rcases fold_cond equation with ⟨n, testFolded, taken⟩ | ⟨n, testFolded, taken⟩ |
      ⟨test', yes', no', testFolded, yesFolded, noFolded, rfl⟩
    · refine (yesIH taken).trans (List.Sublist.cons _ ?_)
      exact (sublist_append_right ..).trans (sublist_append_left ..)
    · exact ((noIH taken).trans (sublist_append_right ..)).cons _
    · simp only [nodes_cond, map_cons, map_append]
      have inYes := tags_orEmpty yesFolded (yesIH yesFolded)
      have inNo := tags_orEmpty noFolded (noIH noFolded)
      exact (((Expr.tags_fold testFolded).append inYes).append inNo).cons_cons _
  | loop node test body bodyIH =>
    obtain ⟨test', body', testFolded, bodyFolded, rfl⟩ := fold_loop equation
    simp only [tags, nodes_loop, map_cons, map_append]
    exact ((Expr.tags_fold testFolded).append
      (tags_orEmpty bodyFolded (bodyIH bodyFolded))).cons_cons _
  | unknown node kind => cases equation

theorem declarations_eq_tags (s : Stmt) :
    s.declarations = s.tags.filterMap fun tag => if tag.2 then some tag.1 else none := by
  rw [declarations, tags, filterMap_map]
  congr 1
  funext v
  exact v.decl?_eq_tag

theorem declarations_fold (equation : fold s = .ok folded) :
    folded.declarations ⊆ s.declarations := by
  rw [declarations_eq_tags, declarations_eq_tags]
  exact ((tags_fold equation).filterMap _).subset

theorem declarationsOfList_fold {folded : List Stmt} (equation : foldList stmts = .ok folded) :
    declarationsOfList folded ⊆ declarationsOfList stmts := by
  induction stmts generalizing folded with
  | nil =>
    cases equation
    exact List.Subset.refl _
  | cons s rest ih =>
    obtain ⟨s', rest', headFolded, restFolded, shape⟩ := foldList_cons equation
    rw [declarationsOfList_cons]
    rcases shape with ⟨rfl, rfl⟩ | rfl
    · exact fun d member => mem_append_right _ (ih restFolded member)
    · intro d member
      rw [declarationsOfList_cons] at member
      rcases mem_append.mp member with inHead | inRest
      · exact mem_append_left _ (declarations_fold headFolded inHead)
      · exact mem_append_right _ (ih restFolded inRest)

theorem nodeIds_eq_tags (s : Stmt) : s.nodeIds = s.tags.map Prod.fst := by
  rw [nodeIds, tags, map_map]
  rfl

theorem declarations_orEmpty (folded source : Stmt) :
    (orEmpty folded source).declarations = folded.declarations := by
  rcases orEmpty_cases folded source with kept | ⟨rfl, -, empty⟩
  · rw [kept]
  · simp [empty, emptyBlock]

theorem identifiers_orEmpty (folded source : Stmt) :
    (orEmpty folded source).identifiers = folded.identifiers := by
  rcases orEmpty_cases folded source with kept | ⟨rfl, -, empty⟩
  · rw [kept]
  · simp [empty, emptyBlock]

theorem uses_orEmpty (folded source : Stmt) (env : Env) :
    (orEmpty folded source).uses env = folded.uses env := by
  rcases orEmpty_cases folded source with kept | ⟨rfl, -, empty⟩
  · rw [kept]
  · simp [empty, emptyBlock, uses, usesOfList]

theorem wellScoped_orEmpty (folded source : Stmt) (env : Env) :
    (orEmpty folded source).WellScoped env ↔ folded.WellScoped env := by
  rcases orEmpty_cases folded source with kept | ⟨rfl, -, empty⟩
  · rw [kept]
  · simp [empty, emptyBlock, WellScoped, WellScopedList]

theorem declare_orEmpty (folded source : Stmt) (env : Env) :
    (orEmpty folded source).declare env = folded.declare env := by
  rcases orEmpty_cases folded source with kept | ⟨rfl, -, empty⟩
  · rw [kept]
  · rw [empty]
    rfl

theorem declare_of_braced (braced : s.Braced) (noDecl : s.isDecl = false) (env : Env) :
    s.declare env = env := by
  induction s using Stmt.induction generalizing env with
  | decl node mutable name type value => cases noDecl
  | cond node test yes no ihYes ihNo =>
    simp only [Braced] at braced
    obtain ⟨yesNoDecl, noNoDecl, yesBraced, noBraced⟩ := braced
    simp only [declare]
    rw [ihYes yesBraced yesNoDecl, ihNo noBraced noNoDecl]
  | loop node test body ih =>
    simp only [Braced] at braced
    exact ih braced.2 braced.1 env
  | absent | bare node | block node stmts _ | assign node target value | ret node value
  | unknown node kind => rfl

theorem declare_fold (braced : s.Braced) (equation : fold s = .ok folded) (env : Env) :
    folded.declare env = s.declare env := by
  induction s using Stmt.induction generalizing folded with
  | absent => cases equation; rfl
  | bare node => cases equation; rfl
  | block node stmts _ =>
    obtain ⟨_, _, rfl⟩ := fold_block equation
    rfl
  | decl node mutable name type value =>
    obtain ⟨_, _, rfl⟩ := fold_decl equation
    rfl
  | assign node target value =>
    obtain ⟨_, _, _, _, rfl⟩ := fold_assign equation
    rfl
  | ret node value =>
    obtain ⟨_, _, rfl⟩ := fold_ret equation
    rfl
  | cond node test yes no ihYes ihNo =>
    have whole := declare_of_braced braced rfl env
    simp only [Braced] at braced
    obtain ⟨yesNoDecl, noNoDecl, yesBraced, noBraced⟩ := braced
    have yesKeeps := declare_of_braced yesBraced yesNoDecl env
    have noKeeps := declare_of_braced noBraced noNoDecl env
    rcases fold_cond equation with ⟨_, _, taken⟩ | ⟨_, _, taken⟩ | ⟨_, _, _, _, yesF, noF, rfl⟩
    · rw [ihYes yesBraced taken, yesKeeps, whole]
    · rw [ihNo noBraced taken, noKeeps, whole]
    · simp only [declare, declare_orEmpty]
      rw [ihYes yesBraced yesF, yesKeeps, ihNo noBraced noF]
  | loop node test body ih =>
    simp only [Braced] at braced
    obtain ⟨_, _, _, bodyFolded, rfl⟩ := fold_loop equation
    simp only [declare, declare_orEmpty]
    exact ih braced.2 bodyFolded
  | unknown node kind => cases equation

theorem usesOfList_fold {folded : List Stmt} (braced : BracedList stmts)
    (equation : foldList stmts = .ok folded)
    (each : ∀ s ∈ stmts, ∀ s', s.Braced → fold s = .ok s' → ∀ env, s'.uses env ⊆ s.uses env)
    (env : Env) : usesOfList env folded ⊆ usesOfList env stmts := by
  induction stmts generalizing folded env with
  | nil =>
    cases equation
    exact List.Subset.refl _
  | cons s rest ih =>
    simp only [BracedList] at braced
    obtain ⟨s', rest', headFolded, restFolded, shape⟩ := foldList_cons equation
    have head := each s (by simp) s' braced.1 headFolded env
    have tail := ih braced.2 restFolded (fun s member => each s (by simp [member]))
      (s.declare env)
    have same := declare_fold braced.1 headFolded env
    rw [usesOfList]
    rcases shape with ⟨rfl, rfl⟩ | rfl
    · rw [← same] at tail ⊢
      exact fun use member => mem_append_right _ (tail member)
    · intro use member
      rw [usesOfList, same] at member
      rcases mem_append.mp member with inHead | inRest
      · exact mem_append_left _ (head inHead)
      · exact mem_append_right _ (tail inRest)

theorem uses_fold (braced : s.Braced) (equation : fold s = .ok folded) (env : Env) :
    folded.uses env ⊆ s.uses env := by
  induction s using Stmt.induction generalizing folded env with
  | absent =>
    cases equation
    exact List.Subset.refl _
  | bare node =>
    cases equation
    simp [emptyBlock, uses, usesOfList]
  | block node stmts each =>
    simp only [Braced] at braced
    obtain ⟨stmts', stmtsFolded, rfl⟩ := fold_block equation
    rw [uses, uses]
    exact usesOfList_fold braced stmtsFolded
      (fun s member s' braced folded env => each s member braced folded env) _
  | decl node mutable name type value =>
    obtain ⟨value', valueFolded, rfl⟩ := fold_decl equation
    simp only [uses, Expr.uses_fold valueFolded]
    exact List.Subset.refl _
  | assign node target value =>
    obtain ⟨target', value', targetFolded, valueFolded, rfl⟩ := fold_assign equation
    simp only [uses, Expr.uses_fold targetFolded, Expr.uses_fold valueFolded]
    exact List.Subset.refl _
  | ret node value =>
    obtain ⟨value', valueFolded, rfl⟩ := fold_ret equation
    simp only [uses, Expr.uses_fold valueFolded]
    exact List.Subset.refl _
  | cond node test yes no yesIH noIH =>
    simp only [Braced] at braced
    obtain ⟨yesNoDecl, -, yesBraced, noBraced⟩ := braced
    have yesKeeps := declare_of_braced yesBraced yesNoDecl env
    rw [uses, yesKeeps]
    rcases fold_cond equation with ⟨n, testFolded, taken⟩ | ⟨n, testFolded, taken⟩ |
      ⟨test', yes', no', testFolded, yesFolded, noFolded, rfl⟩
    · intro use member
      exact mem_append_left _ (mem_append_right _ (yesIH yesBraced taken env member))
    · intro use member
      exact mem_append_right _ (noIH noBraced taken env member)
    · have yesUses := yesIH yesBraced yesFolded env
      have noUses := noIH noBraced noFolded env
      simp only [uses, uses_orEmpty, declare_orEmpty, declare_fold yesBraced yesFolded, yesKeeps,
        Expr.uses_fold testFolded]
      intro use member
      rw [mem_append, mem_append] at member ⊢
      exact member.imp (Or.imp_right fun inYes => yesUses inYes) fun inNo => noUses inNo
  | loop node test body bodyIH =>
    simp only [Braced] at braced
    obtain ⟨test', body', testFolded, bodyFolded, rfl⟩ := fold_loop equation
    have bodyUses := bodyIH braced.2 bodyFolded env
    simp only [uses, uses_orEmpty, Expr.uses_fold testFolded]
    intro use member
    rw [mem_append] at member ⊢
    exact member.imp_right fun inBody => bodyUses inBody
  | unknown node kind => cases equation

end Stmt

theorem Func.nodeIds_fold {f folded : Func} (equation : f.fold = .ok folded) :
    folded.nodeIds.Sublist f.nodeIds := by
  obtain ⟨body, bodyFolded, rfl⟩ := Func.fold_eq_ok equation
  rw [nodeIds, nodeIds, Stmt.nodeIds_eq_tags, Stmt.nodeIds_eq_tags]
  exact ((Stmt.tags_orEmpty bodyFolded (Stmt.tags_fold bodyFolded)).map _).cons_cons _

/-- The functions of the second list are those of the first, folded one by one. -/
inductive Func.FoldAll : List Func → List Func → Prop where
  | nil : FoldAll [] []
  | cons {f f' : Func} {rest rest' : List Func} (head : f.fold = .ok f')
      (tail : FoldAll rest rest') : FoldAll (f :: rest) (f' :: rest')

theorem Module.foldEntries_map_some {folded : List (Option Func)}
    (equation : foldEntries (fs.map some) = .ok folded) :
    ∃ fs' : List Func, folded = fs'.map some ∧ Func.FoldAll fs fs' := by
  induction fs generalizing folded with
  | nil =>
    cases equation
    exact ⟨[], rfl, .nil⟩
  | cons f rest ih =>
    simp only [map_cons, foldEntries] at equation
    obtain ⟨f', funcFolded, equation⟩ := bind_eq_ok.mp equation
    obtain ⟨rest', restFolded, equation⟩ := bind_eq_ok.mp equation
    obtain ⟨fs', rfl, tail⟩ := ih restFolded
    cases equation
    exact ⟨f' :: fs', rfl, .cons (mapError_eq_ok.mp funcFolded) tail⟩

theorem Func.FoldAll.nodeIds (folded : FoldAll fs fs') :
    (fs'.flatMap Func.nodeIds).Sublist (fs.flatMap Func.nodeIds) := by
  induction folded with
  | nil => exact List.Sublist.refl _
  | cons head tail ih =>
    rw [flatMap_cons, flatMap_cons]
    exact (Func.nodeIds_fold head).append ih

end MiddleEnd
