import MiddleEnd.Proofs.Folding.Cases
import MiddleEnd.Proofs.Syntax.Nodes

/-!
The trees that folding has nothing left to do on. Folding reaches one of them in a single pass, and
leaves every one of them as it is.
-/

namespace MiddleEnd

open List

/-- No operator has operands that could be evaluated. Leaves keep all that their records hold, every
other node has its number and nothing beside. -/
inductive Expr.Normal : Expr → Prop
  | absent : Normal .absent
  | int (node : Node) (value : Int32) : Normal (.int node value)
  | bool (node : Node) (value : Bool) : Normal (.bool node value)
  | ident (node : Node) (name : Text) : Normal (.ident node name)
  | unary {id : NodeId} {operand : Expr} (normal : Normal operand)
      (present : operand.isAbsent = false) (unknown : operand.isLiteral = false) :
      Normal (.unary ⟨id, []⟩ .not operand)
  | binary {id : NodeId} {op : BinaryOp} {left right : Expr} (leftNormal : Normal left)
      (rightNormal : Normal right) (leftPresent : left.isAbsent = false)
      (rightPresent : right.isAbsent = false) (unknown : left.int? = none ∨ right.int? = none) :
      Normal (.binary ⟨id, []⟩ op left right)

namespace Expr

theorem normal_literal (id : NodeId) (v : Constant) : (literal id v).Normal := by
  cases v with
  | int n => exact .int _ n
  | bool b => exact .bool _ b

theorem fold_normal {e : Expr} (equation : e.fold = .ok folded) : folded.Normal := by
  replace equation := folds_of_fold equation
  induction equation with
  | absent | int | bool | ident => constructor
  | complement | negation | ints => exact normal_literal _ _
  | unary _ present unknown ih => exact .unary ih present unknown
  | binary _ _ leftPresent rightPresent unknown leftIH rightIH =>
    exact .binary leftIH rightIH leftPresent rightPresent unknown

theorem foldUnary_of_unknown (id : NodeId) (present : operand.isAbsent = false)
    (unknown : operand.isLiteral = false) :
    foldUnary id .not operand = .ok (.unary ⟨id, []⟩ .not operand) := by
  cases operand with
  | absent => cases present
  | int | bool => cases unknown
  | _ => rfl

theorem foldBinary_of_unknown (id : NodeId) (op : BinaryOp) (leftPresent : left.isAbsent = false)
    (rightPresent : right.isAbsent = false) (unknown : left.int? = none ∨ right.int? = none) :
    foldBinary id op left right = .ok (.binary ⟨id, []⟩ op left right) := by
  unfold foldBinary
  split
  · cases leftPresent
  · cases rightPresent
  · rcases unknown with unknown | unknown <;> cases unknown
  · rfl

theorem Normal.fold_eq {e : Expr} (normal : e.Normal) : e.fold = .ok e := by
  induction normal with
  | absent | int | bool | ident => rfl
  | unary _ present unknown ih =>
    rw [fold, ih, ok_bind]
    exact foldUnary_of_unknown _ present unknown
  | binary _ _ leftPresent rightPresent unknown leftIH rightIH =>
    rw [fold, leftIH, ok_bind, rightIH, ok_bind]
    exact foldBinary_of_unknown _ _ leftPresent rightPresent unknown

end Expr

/-- Every expression is normal, no conditional is decided, and no list holds a statement that is
nothing. -/
inductive Stmt.Normal : Stmt → Prop
  | absent : Normal .absent
  | block {id : NodeId} {stmts : List Stmt} (present : ∀ s ∈ stmts, s.isAbsent = false)
      (normal : ∀ s ∈ stmts, Normal s) : Normal (.block ⟨id, []⟩ (some stmts))
  | decl {id : NodeId} {mutable : Bool} {name : Text} {type : Ty} {value : Expr}
      (normal : value.Normal) : Normal (.decl ⟨id, []⟩ mutable name type value)
  | assign {id : NodeId} {target value : Expr} (targetNormal : target.Normal)
      (valueNormal : value.Normal) : Normal (.assign ⟨id, []⟩ target value)
  | ret {id : NodeId} {value : Expr} (normal : value.Normal) : Normal (.ret ⟨id, []⟩ value)
  | cond {id : NodeId} {test : Expr} {yes no : Stmt} (testNormal : test.Normal)
      (undecided : ∀ node b, test ≠ .bool node b) (yesNormal : Normal yes)
      (noNormal : Normal no) : Normal (.cond ⟨id, []⟩ test yes no)
  | loop {id : NodeId} {test : Expr} {body : Stmt} (testNormal : test.Normal)
      (bodyNormal : Normal body) : Normal (.loop ⟨id, []⟩ test body)

namespace Stmt

theorem normal_emptyBlock (id : NodeId) : (emptyBlock id).Normal :=
  .block (forall_mem_nil _) (forall_mem_nil _)

theorem Normal.orEmpty {folded : Stmt} (normal : folded.Normal) (source : Stmt) :
    (folded.orEmpty source).Normal := by
  rcases orEmpty_cases folded source with kept | ⟨-, -, empty⟩
  · rwa [kept]
  · rw [empty]
    exact normal_emptyBlock source.id

theorem foldList_normal (equation : foldList stmts = .ok folded)
    (each : ∀ s ∈ stmts, ∀ s', fold s = .ok s' → s'.Normal) :
    ∀ s ∈ folded, s.isAbsent = false ∧ s.Normal := by
  induction stmts generalizing folded with
  | nil =>
    cases equation
    intro s member
    cases member
  | cons s rest ih =>
    obtain ⟨s', headFolded, equation⟩ := bind_eq_ok.mp equation
    obtain ⟨rest', restFolded, equation⟩ := bind_eq_ok.mp equation
    have tail := ih restFolded fun t member => each t (mem_cons_of_mem s member)
    have head := each s mem_cons_self s' headFolded
    cases absent : s'.isAbsent with
    | true =>
      simp only [absent, if_true, Except.ok.injEq] at equation
      rwa [← equation]
    | false =>
      simp only [absent, Bool.false_eq_true, if_false, Except.ok.injEq] at equation
      rw [← equation, forall_mem_cons]
      exact ⟨⟨absent, head⟩, tail⟩

theorem fold_normal (equation : fold s = .ok folded) : folded.Normal := by
  induction s using Stmt.induction generalizing folded with
  | absent =>
    cases equation
    exact .absent
  | bare node =>
    cases equation
    exact normal_emptyBlock node.id
  | block node stmts each =>
    obtain ⟨stmts', stmtsFolded, rfl⟩ := fold_block equation
    have normal := foldList_normal stmtsFolded fun s member s' => each s member
    exact .block (fun s member => (normal s member).1) fun s member => (normal s member).2
  | decl node mutable name type value =>
    obtain ⟨value', valueFolded, rfl⟩ := fold_decl equation
    exact .decl (Expr.fold_normal valueFolded)
  | assign node target value =>
    obtain ⟨target', value', targetFolded, valueFolded, rfl⟩ := fold_assign equation
    exact .assign (Expr.fold_normal targetFolded) (Expr.fold_normal valueFolded)
  | ret node value =>
    obtain ⟨value', valueFolded, rfl⟩ := fold_ret equation
    exact .ret (Expr.fold_normal valueFolded)
  | cond node test yes no yesIH noIH =>
    obtain ⟨test', testFolded, equation⟩ := bind_eq_ok.mp equation
    split at equation
    · exact yesIH equation
    · exact noIH equation
    · next notTrue notFalse =>
      obtain ⟨yes', yesFolded, equation⟩ := bind_eq_ok.mp equation
      obtain ⟨no', noFolded, equation⟩ := bind_eq_ok.mp equation
      cases equation
      refine .cond (Expr.fold_normal testFolded) (fun n b decided => ?_)
        ((yesIH yesFolded).orEmpty yes) ((noIH noFolded).orEmpty no)
      cases b with
      | true => exact notTrue n decided
      | false => exact notFalse n decided
  | loop node test body bodyIH =>
    obtain ⟨test', body', testFolded, bodyFolded, rfl⟩ := fold_loop equation
    exact .loop (Expr.fold_normal testFolded) ((bodyIH bodyFolded).orEmpty body)
  | unknown node kind => cases equation

theorem orEmpty_self (s : Stmt) : s.orEmpty s = s := by
  rcases orEmpty_cases s s with kept | ⟨absent, present, -⟩
  · exact kept
  · exact absurd absent present

theorem foldList_eq {stmts : List Stmt} (present : ∀ s ∈ stmts, s.isAbsent = false)
    (each : ∀ s ∈ stmts, fold s = .ok s) : foldList stmts = .ok stmts := by
  induction stmts with
  | nil => rfl
  | cons s rest ih =>
    rw [forall_mem_cons] at present each
    rw [foldList, each.1, ok_bind, ih present.2 each.2, ok_bind, present.1]
    rfl

theorem fold_cond_of_undecided {id : NodeId} (testFolded : test.fold = .ok test)
    (undecided : ∀ node b, test ≠ .bool node b) (yesFolded : fold yes = .ok yes)
    (noFolded : fold no = .ok no) :
    fold (.cond ⟨id, []⟩ test yes no) = .ok (.cond ⟨id, []⟩ test yes no) := by
  rw [fold, testFolded, ok_bind]
  split
  · next n => exact absurd rfl (undecided n true)
  · next n => exact absurd rfl (undecided n false)
  · rw [yesFolded, ok_bind, noFolded, ok_bind, orEmpty_self, orEmpty_self]

theorem Normal.fold_eq (normal : s.Normal) : fold s = .ok s := by
  induction normal with
  | absent => rfl
  | block present _ each =>
    rw [fold, foldList_eq present each]
    rfl
  | decl value =>
    rw [fold, value.fold_eq]
    rfl
  | assign target value =>
    rw [fold, target.fold_eq, ok_bind, value.fold_eq]
    rfl
  | ret value =>
    rw [fold, value.fold_eq]
    rfl
  | cond test undecided _ _ yesIH noIH =>
    exact fold_cond_of_undecided test.fold_eq undecided yesIH noIH
  | loop test _ ih => rw [fold, test.fold_eq, ok_bind, ih, ok_bind, orEmpty_self]

end Stmt

namespace Module

/-- The module has a list of functions, and every body in it is normal. -/
def Normal (m : Module) : Prop :=
  ∃ entries, m.funcs = some entries ∧ ∀ f, some f ∈ entries → f.body.Normal

theorem foldEntries_normal {entries : List (Option Func)}
    (equation : foldEntries entries = .ok folded) (f : Func) (member : some f ∈ folded) :
    f.body.Normal := by
  obtain ⟨i, found⟩ := List.getElem?_of_mem member
  obtain ⟨source, -, funcFolded⟩ := (foldEntries_getElem? equation i).2 f found
  obtain ⟨body, bodyFolded, rfl⟩ := Func.fold_eq_ok funcFolded
  exact (Stmt.fold_normal bodyFolded).orEmpty source.body

theorem foldEntries_eq {entries : List (Option Func)}
    (normal : ∀ f, some f ∈ entries → f.body.Normal) : foldEntries entries = .ok entries := by
  induction entries with
  | nil => rfl
  | cons entry rest ih =>
    have tail := ih fun f member => normal f (mem_cons_of_mem entry member)
    cases entry with
    | none =>
      rw [foldEntries, tail]
      rfl
    | some f =>
      have head : f.fold = .ok f := by
        rw [Func.fold, (normal f mem_cons_self).fold_eq, ok_bind, Stmt.orEmpty_self]
      rw [foldEntries, head, ok_mapError, ok_bind, tail]
      rfl

theorem Normal.fold_eq {m : Module} (normal : m.Normal) : m.fold = .ok m := by
  obtain ⟨id, name, funcs⟩ := m
  obtain ⟨listed, rfl, bodies⟩ := normal
  exact bind_eq_ok.mpr ⟨listed, foldEntries_eq bodies, rfl⟩

/-- Folding once is enough: folding again succeeds and changes nothing. -/
theorem fold_idempotent {m folded : Module} (equation : m.fold = .ok folded) :
    folded.Normal ∧ folded.fold = .ok folded := by
  have normal : folded.Normal := by
    obtain ⟨funcs, entriesFolded, rfl⟩ := fold_eq_ok equation
    exact ⟨funcs, rfl, foldEntries_normal entriesFolded⟩
  exact ⟨normal, normal.fold_eq⟩

end Module

/-- The branch of the decided conditional is a bare declaration, the body of the loop folds to
nothing, and an operator nobody knows stands over a variable. -/
def unkempt : Module where
  id := 1
  name := [109]
  funcs := some [none, some {
    id := 2
    name := [102]
    result := .int
    body := .block ⟨3, []⟩ (some [
      .absent,
      .cond ⟨4, []⟩ .absent (.ret ⟨5, []⟩ .absent) .absent,
      .cond ⟨6, []⟩ (.unary ⟨7, []⟩ .not (.bool ⟨8, []⟩ false))
        (.decl ⟨9, []⟩ true [120] .int .absent) (.ret ⟨10, []⟩ .absent),
      .loop ⟨11, []⟩ (.ident ⟨12, []⟩ [120])
        (.cond ⟨13, []⟩ (.binary ⟨14, []⟩ .lt (.int ⟨15, []⟩ 2) (.int ⟨16, []⟩ 1))
          (.block ⟨17, []⟩ none) .absent),
      .assign ⟨18, []⟩ (.ident ⟨19, []⟩ [120])
        (.binary ⟨20, []⟩ (.other 77) (.ident ⟨21, []⟩ [120]) (.int ⟨22, []⟩ 1)),
      .block ⟨23, []⟩ none]) }]

theorem unkempt_fold_idempotent :
    ∃ folded, unkempt.fold = .ok folded ∧ folded ≠ unkempt ∧ folded.Normal ∧
      folded.fold = .ok folded := by
  obtain ⟨folded, equation⟩ : ∃ folded, unkempt.fold = .ok folded := ⟨_, rfl⟩
  refine ⟨folded, equation, ?_, Module.fold_idempotent equation⟩
  cases equation
  intro same
  cases same

end MiddleEnd
