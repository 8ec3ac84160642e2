import MiddleEnd.Folding.Fold
import MiddleEnd.Proofs.Control

/-!
What folding can make of each kind of expression and statement.
-/

namespace MiddleEnd

namespace Expr

def int? : Expr → Option Int32
  | .int _ n => some n
  | _ => none

/-- How an expression folds. Known operands are evaluated, others are kept below their operator. -/
inductive Folds : Expr → Expr → Prop
  | absent : Folds .absent .absent
  | int (node : Node) (n : Int32) : Folds (.int node n) (.int node n)
  | bool (node : Node) (b : Bool) : Folds (.bool node b) (.bool node b)
  | ident (node : Node) (name : Text) : Folds (.ident node name) (.ident node name)
  | complement {node m : Node} {n : Int32} {operand : Expr} (known : Folds operand (.int m n)) :
      Folds (.unary node .not operand) (literal node.id (.int (~~~n)))
  | negation {node m : Node} {b : Bool} {operand : Expr} (known : Folds operand (.bool m b)) :
      Folds (.unary node .not operand) (literal node.id (.bool !b))
  | unary {node : Node} {operand operand' : Expr} (below : Folds operand operand')
      (present : operand'.isAbsent = false) (unknown : operand'.isLiteral = false) :
      Folds (.unary node .not operand) (.unary ⟨node.id, []⟩ .not operand')
  | ints {node m n : Node} {op : BinaryOp} {l r : Int32} {v : Constant} {left right : Expr}
      (onLeft : Folds left (.int m l)) (onRight : Folds right (.int n r))
      (applied : op.applyInts l r = .value v) :
      Folds (.binary node op left right) (literal node.id v)
  | binary {node : Node} {op : BinaryOp} {left left' right right' : Expr}
      (onLeft : Folds left left') (onRight : Folds right right')
      (leftPresent : left'.isAbsent = false) (rightPresent : right'.isAbsent = false)
      (unknown : left'.int? = none ∨ right'.int? = none) :
      Folds (.binary node op left right) (.binary ⟨node.id, []⟩ op left' right')

theorem isAbsent_eq_false {e : Expr} (present : e = .absent → False) : e.isAbsent = false := by
  cases e with
  | absent => exact (present rfl).elim
  | _ => rfl

theorem folds_of_fold {e : Expr} (equation : e.fold = .ok folded) : e.Folds folded := by
  induction e generalizing folded with
  | absent | int | bool | ident =>
    cases equation
    constructor
  | unary node op operand ih =>
    obtain ⟨operand', operandFolded, equation⟩ := bind_eq_ok.mp equation
    have below := ih operandFolded
    cases op with
    | other code => cases operand' <;> cases equation
    | not =>
      cases operand' with
      | absent => cases equation
      | int m n => exact Except.ok.inj equation ▸ .complement below
      | bool m b => exact Except.ok.inj equation ▸ .negation below
      | _ => exact Except.ok.inj equation ▸ .unary below rfl rfl
  | binary node op left right leftIH rightIH =>
    obtain ⟨left', leftFolded, equation⟩ := bind_eq_ok.mp equation
    obtain ⟨right', rightFolded, equation⟩ := bind_eq_ok.mp equation
    have onLeft := leftIH leftFolded
    have onRight := rightIH rightFolded
    unfold foldBinary at equation
    split at equation
    · cases equation
    · cases equation
    · split at equation
      · next applied => exact Except.ok.inj equation ▸ .ints onLeft onRight applied
      · cases equation
      · cases equation
    · next noLeft noRight noInts =>
      cases equation
      refine .binary onLeft onRight (isAbsent_eq_false noLeft) (isAbsent_eq_false noRight) ?_
      cases left' with
      | int m l =>
        cases right' with
        | int n r => exact (noInts m l n r rfl rfl).elim
        | _ => exact .inr rfl
      | _ => exact .inl rfl
  | unknown node kind => cases equation

end Expr

namespace Stmt

@[simp] theorem orEmpty_absent (folded : Stmt) : orEmpty folded .absent = folded := by
  simp [orEmpty, isAbsent]

theorem orEmpty_cases (folded source : Stmt) :
    orEmpty folded source = folded ∨
      (folded = .absent ∧ source ≠ .absent ∧ orEmpty folded source = .emptyBlock source.id) := by
  cases source with
  | absent => exact .inl (orEmpty_absent folded)
  | _ =>
    cases folded with
    | absent => exact .inr ⟨rfl, nofun, rfl⟩
    | _ => exact .inl rfl

variable {node : Node} {folded : Stmt} {value : Expr}

theorem fold_block (equation : fold (.block node (some stmts)) = .ok folded) :
    ∃ stmts', foldList stmts = .ok stmts' ∧ folded = .block ⟨node.id, []⟩ (some stmts') := by
  obtain ⟨stmts', stmtsFolded, equation⟩ := bind_eq_ok.mp equation
  exact ⟨stmts', stmtsFolded, (Except.ok.inj equation).symm⟩

theorem fold_decl (equation : fold (.decl node mutable name type value) = .ok folded) :
    ∃ value', value.fold = .ok value' ∧ folded = .decl ⟨node.id, []⟩ mutable name type value' := by
  obtain ⟨value', valueFolded, equation⟩ := bind_eq_ok.mp equation
  exact ⟨value', valueFolded, (Except.ok.inj equation).symm⟩

theorem fold_assign (equation : fold (.assign node target value) = .ok folded) :
    ∃ target' value', target.fold = .ok target' ∧ value.fold = .ok value' ∧
      folded = .assign ⟨node.id, []⟩ target' value' := by
  obtain ⟨target', targetFolded, equation⟩ := bind_eq_ok.mp equation
  obtain ⟨value', valueFolded, equation⟩ := bind_eq_ok.mp equation
  exact ⟨target', value', targetFolded, valueFolded, (Except.ok.inj equation).symm⟩

theorem fold_ret (equation : fold (.ret node value) = .ok folded) :
    ∃ value', value.fold = .ok value' ∧ folded = .ret ⟨node.id, []⟩ value' := by
  obtain ⟨value', valueFolded, equation⟩ := bind_eq_ok.mp equation
  exact ⟨value', valueFolded, (Except.ok.inj equation).symm⟩

theorem fold_cond (equation : fold (.cond node test yes no) = .ok folded) :
    (∃ n, test.fold = .ok (.bool n true) ∧ fold yes = .ok folded) ∨
      (∃ n, test.fold = .ok (.bool n false) ∧ fold no = .ok folded) ∨
      (∃ test' yes' no', test.fold = .ok test' ∧ fold yes = .ok yes' ∧ fold no = .ok no' ∧
        folded = .cond ⟨node.id, []⟩ test' (orEmpty yes' yes) (orEmpty no' no)) := by
  obtain ⟨test', testFolded, equation⟩ := bind_eq_ok.mp equation
  split at equation
  · exact .inl ⟨_, testFolded, equation⟩
  · exact .inr (.inl ⟨_, testFolded, equation⟩)
  · obtain ⟨yes', yesFolded, equation⟩ := bind_eq_ok.mp equation
    obtain ⟨no', noFolded, equation⟩ := bind_eq_ok.mp equation
    exact .inr (.inr ⟨test', yes', no', testFolded, yesFolded, noFolded,
      (Except.ok.inj equation).symm⟩)

theorem fold_loop (equation : fold (.loop node test body) = .ok folded) :
    ∃ test' body', test.fold = .ok test' ∧ fold body = .ok body' ∧
      folded = .loop ⟨node.id, []⟩ test' (orEmpty body' body) := by
  obtain ⟨test', testFolded, equation⟩ := bind_eq_ok.mp equation
  obtain ⟨body', bodyFolded, equation⟩ := bind_eq_ok.mp equation
  exact ⟨test', body', testFolded, bodyFolded, (Except.ok.inj equation).symm⟩

theorem foldList_cons {folded : List Stmt} (equation : foldList (s :: rest) = .ok folded) :
    ∃ s' rest', fold s = .ok s' ∧ foldList rest = .ok rest' ∧
      (s' = .absent ∧ folded = rest' ∨ folded = s' :: rest') := by
  obtain ⟨s', headFolded, equation⟩ := bind_eq_ok.mp equation
  obtain ⟨rest', restFolded, equation⟩ := bind_eq_ok.mp equation
  refine ⟨s', rest', headFolded, restFolded, ?_⟩
  cases s' with
  | absent => exact .inl ⟨rfl, (Except.ok.inj equation).symm⟩
  | _ => exact .inr (Except.ok.inj equation).symm

end Stmt

theorem Func.fold_eq_ok {f : Func} (equation : f.fold = .ok folded) :
    ∃ body, f.body.fold = .ok body ∧ folded = { f with body := body.orEmpty f.body } := by
  obtain ⟨body, bodyFolded, equation⟩ := bind_eq_ok.mp equation
  exact ⟨body, bodyFolded, (Except.ok.inj equation).symm⟩

namespace Module

theorem foldEntries_getElem? {entries : List (Option Func)}
    (equation : foldEntries entries = .ok folded) (i : Nat) :
    (∀ f, entries[i]? = some (some f) → ∃ f', f.fold = .ok f' ∧ folded[i]? = some (some f')) ∧
      (∀ f', folded[i]? = some (some f') → ∃ f, entries[i]? = some (some f) ∧ f.fold = .ok f') := by
  induction entries generalizing folded i with
  | nil =>
    cases equation
    simp
  | cons entry rest ih =>
    cases entry with
    | none =>
      simp only [foldEntries] at equation
      obtain ⟨rest', restFolded, equation⟩ := bind_eq_ok.mp equation
      cases equation
      cases i with
      | zero => simp
      | succ i => simpa using ih restFolded i
    | some f =>
      simp only [foldEntries] at equation
      obtain ⟨f', funcFolded, equation⟩ := bind_eq_ok.mp equation
      obtain ⟨rest', restFolded, equation⟩ := bind_eq_ok.mp equation
      cases equation
      have kept : f.fold = .ok f' := by
        cases outcome : f.fold with
        | error e =>
          rw [outcome] at funcFolded
          cases funcFolded
        | ok g =>
          rw [outcome] at funcFolded
          cases funcFolded
          rfl
      cases i with
      | zero => simp [kept]
      | succ i => simpa using ih restFolded i

theorem fold_eq_ok {m : Module} (equation : m.fold = .ok folded) :
    ∃ funcs, foldEntries m.entries = .ok funcs ∧ folded = { m with funcs := some funcs } := by
  obtain ⟨funcs, entriesFolded, equation⟩ := bind_eq_ok.mp equation
  exact ⟨funcs, entriesFolded, (Except.ok.inj equation).symm⟩

end Module

end MiddleEnd
