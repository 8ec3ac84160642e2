import MiddleEnd.Folding.Fold
import MiddleEnd.Lowering.Lower
import MiddleEnd.Proofs.Control
import MiddleEnd.Proofs.Syntax.Plain
import MiddleEnd.Scoping.Check
import MiddleEnd.Syntax.Printer

/-!
No stage of a compilation sees what nodes carry unread, and folding does not look at types.
-/

namespace MiddleEnd

open List Option Stmt

variable {stmts : List Stmt}

namespace Expr

theorem plain_literal (id : NodeId) (value : Constant) : (literal id value).plain = literal id value := by
  cases value <;> rfl

theorem foldUnary_plain (id : NodeId) (op : UnaryOp) (operand : Expr) :
    foldUnary id op operand.plain = (foldUnary id op operand).map plain := by
  cases operand <;> cases op <;> rfl

theorem foldBinary_plain (id : NodeId) (op : BinaryOp) (left right : Expr) :
    foldBinary id op left.plain right.plain = (foldBinary id op left right).map plain := by
  cases left with
  | int node l =>
    cases right with
    | int node' r =>
      simp only [plain, foldBinary]
      cases op.applyInts l r with
      | value v => exact congrArg Except.ok (plain_literal id v).symm
      | zeroDivisor => rfl
      | meaningless => rfl
    | _ => rfl
  | _ => cases right <;> rfl

theorem fold_plain (e : Expr) : e.plain.fold = e.fold.map plain := by
  induction e with
  | absent | int | bool | ident | unknown => rfl
  | unary node op operand ih =>
    simp only [plain, fold, ih]
    cases operand.fold with
    | error e => rfl
    | ok folded => exact foldUnary_plain node.id op folded
  | binary node op left right leftIH rightIH =>
    simp only [plain, fold, leftIH, rightIH]
    cases left.fold with
    | error e => rfl
    | ok l =>
      cases right.fold with
      | error e => rfl
      | ok r => exact foldBinary_plain node.id op l r

end Expr

namespace Stmt

variable (types : Ty → Ty)

theorem orEmpty_plain (folded source : Stmt) :
    orEmpty (folded.plain types) (source.plain types) = (orEmpty folded source).plain types := by
  simp only [orEmpty, isAbsent_plain]
  split
  · simp [emptyBlock, plain, plainList, Node.plain]
  · rfl

theorem foldList_plain (each : ∀ s ∈ stmts, (s.plain types).fold = s.fold.map (plain types)) :
    foldList (plainList types stmts) = (foldList stmts).map (plainList types) := by
  induction stmts with
  | nil => simp [plainList, foldList]
  | cons s rest ih =>
    simp only [plainList, foldList, each s (by simp),
      ih fun s member => each s (by simp [member])]
    cases s.fold with
    | error e => rfl
    | ok folded =>
      cases foldList rest with
      | error e => rfl
      | ok others =>
        simp only [ok_map, ok_bind, isAbsent_plain]
        split <;> simp [plainList]

theorem fold_plain (s : Stmt) : (s.plain types).fold = s.fold.map (plain types) := by
  induction s using induction with
  | absent => simp [plain, fold]
  | bare node => simp [plain, fold, emptyBlock, plainList, Node.plain]
  | block node stmts each =>
    simp only [plain, fold, foldList_plain types each]
    cases foldList stmts with
    | error e => rfl
    | ok folded => simp [plain, Node.plain]
  | decl node mutable name type value =>
    simp only [plain, fold, Expr.fold_plain]
    cases value.fold with
    | error e => rfl
    | ok folded => simp [plain, Node.plain]
  | assign node target value =>
    simp only [plain, fold, Expr.fold_plain]
    cases target.fold with
    | error e => rfl
    | ok folded =>
      cases value.fold with
      | error e => rfl
      | ok folded' => simp [plain, Node.plain]
  | ret node value =>
    simp only [plain, fold, Expr.fold_plain]
    cases value.fold with
    | error e => rfl
    | ok folded => simp [plain, Node.plain]
  | cond node test yes no yesIH noIH =>
    have kept : ∀ test' : Expr,
        ((yes.fold.map (plain types) >>= fun yes' => no.fold.map (plain types) >>= fun no' =>
          .ok (.cond ⟨node.id, []⟩ test'.plain (orEmpty yes' (yes.plain types))
            (orEmpty no' (no.plain types))) : Except FoldError Stmt)) =
        (yes.fold >>= fun yes' => no.fold >>= fun no' =>
          .ok (.cond ⟨node.id, []⟩ test' (orEmpty yes' yes) (orEmpty no' no))).map
            (plain types) := by
      intro test'
      cases yes.fold with
      | error e => rfl
      | ok yes' =>
        cases no.fold with
        | error e => rfl
        | ok no' => simp [plain, Node.plain, orEmpty_plain]
    simp only [plain, fold, Expr.fold_plain, yesIH, noIH]
    cases test.fold with
    | error e => rfl
    | ok test' =>
      cases test' with
      | bool node' value => cases value <;> rfl
      | _ => exact kept _
  | loop node test body ih =>
    simp only [plain, fold, Expr.fold_plain, ih]
    cases test.fold with
    | error e => rfl
    | ok folded =>
      cases body.fold with
      | error e => rfl
      | ok folded' => simp [plain, Node.plain, orEmpty_plain]
  | unknown node kind => simp [plain, fold, Node.plain]

end Stmt

namespace Func

variable (types : Ty → Ty)

theorem fold_plain (f : Func) : (f.plain types).fold = f.fold.map (plain types) := by
  simp only [plain, fold, Stmt.fold_plain]
  cases f.body.fold with
  | error e => rfl
  | ok folded => simp [plain, Stmt.orEmpty_plain]

end Func

namespace Module

variable (types : Ty → Ty)

theorem foldEntries_plain (entries : List (Option Func)) :
    foldEntries (entries.map (Option.map (Func.plain types))) =
      (foldEntries entries).map (List.map (Option.map (Func.plain types))) := by
  induction entries with
  | nil => rfl
  | cons entry rest ih =>
    cases entry with
    | none =>
      simp only [map_cons, map_none, foldEntries, ih]
      cases foldEntries rest <;> rfl
    | some f =>
      simp only [map_cons, map_some, foldEntries, Func.fold_plain, ih]
      cases f.fold with
      | error e => rfl
      | ok folded => cases foldEntries rest <;> rfl

theorem fold_plain (m : Module) : (m.plain types).fold = m.fold.map (plain types) := by
  simp only [fold, entries_plain, foldEntries_plain]
  cases foldEntries m.entries <;> rfl

theorem fold_alike {m m' : Module} (alike : m.plain types = m'.plain types)
    (equation : m.fold = .ok folded) :
    ∃ folded', m'.fold = .ok folded' ∧ folded.plain types = folded'.plain types := by
  have both : m.fold.map (plain types) = m'.fold.map (plain types) := by
    rw [← fold_plain, alike, fold_plain]
  rw [equation, ok_map] at both
  cases other : m'.fold with
  | error e =>
    rw [other] at both
    cases both
  | ok folded' =>
    rw [other, ok_map] at both
    exact ⟨folded', rfl, Except.ok.inj both⟩

end Module

theorem Expr.print_plain (e : Expr) : e.plain.print = e.print := by
  induction e with
  | unary node op operand ih => rw [plain, print, print, ih]
  | binary node op left right leftIH rightIH => rw [plain, print, print, leftIH, rightIH]
  | _ => rfl

namespace Stmt

theorem linesOfList_plain
    (each : ∀ s ∈ stmts, ∀ bare depth, (s.plain Ty.itself).lines bare depth = s.lines bare depth)
    (depth : Nat) : linesOfList depth (plainList Ty.itself stmts) = linesOfList depth stmts := by
  induction stmts with
  | nil => simp [plainList]
  | cons s rest ih =>
    rw [plainList, linesOfList, linesOfList, each s (by simp),
      ih fun s member => each s (by simp [member])]

theorem lines_decl (bare : Bool) (depth : Nat) (node : Node) (mutable : Bool) (name : Text)
    (type : Ty) (present : value.isAbsent = false) :
    lines bare depth (.decl node mutable name type value) =
      [indented depth [.concat [if mutable then "var " else "val ", name, ": ", type.name], " = ",
        value.print, ";"]] := by
  cases value with
  | absent => cases present
  | _ => simp only [lines]

theorem lines_ret (bare : Bool) (depth : Nat) (node : Node) (present : value.isAbsent = false) :
    lines bare depth (.ret node value) = [indented depth ["return ", value.print, ";"]] := by
  cases value with
  | absent => cases present
  | _ => simp only [lines]

theorem lines_plain (s : Stmt) (bare : Bool) (depth : Nat) :
    (s.plain Ty.itself).lines bare depth = s.lines bare depth := by
  induction s using induction generalizing bare depth with
  | absent | bare node | unknown node kind => simp [plain, lines]
  | block node stmts each =>
    simp only [plain, lines, linesOfList_plain each]
  | decl node mutable name type value =>
    cases present : value.isAbsent with
    | false =>
      rw [plain, lines_decl _ _ _ _ _ _ present,
        lines_decl _ _ _ _ _ _ ((Expr.isAbsent_plain value).trans present), Expr.print_plain]
      rfl
    | true =>
      cases value with
      | absent => simp only [plain, Expr.plain, lines, Ty.itself]
      | _ => cases present
  | assign node target value => simp only [plain, lines, Expr.print_plain]
  | ret node value =>
    cases present : value.isAbsent with
    | false =>
      rw [plain, lines_ret _ _ _ present,
        lines_ret _ _ _ ((Expr.isAbsent_plain value).trans present), Expr.print_plain]
    | true =>
      cases value with
      | absent => simp only [plain, Expr.plain, lines]
      | _ => cases present
  | cond node test yes no yesIH noIH =>
    simp only [plain, lines, Expr.print_plain, isAbsent_plain, yesIH, noIH]
  | loop node test body ih => simp only [plain, lines, Expr.print_plain, ih]

end Stmt

theorem Module.print_plain (m : Module) : (m.plain Ty.itself).print = m.print := by
  rw [print, print, entries_plain, flatMap_map]
  refine congrArg (fun parts => Text.lines ((Text.ofString "module " ++ m.name) :: parts)) ?_
  refine congrArg (fun shown => m.entries.flatMap shown) (funext fun entry => ?_)
  cases entry with
  | none => rfl
  | some f =>
    have body := f.body.lines_plain true 1
    simp only [map_some, Func.lines, Func.plain, body, Ty.itself]

namespace Scoping.Checker

theorem exprProblems_plain (c : Checker) (e : Expr) : c.exprProblems e.plain = c.exprProblems e := by
  induction e with
  | unary node op operand ih => rw [Expr.plain, exprProblems, exprProblems, ih]
  | binary node op left right leftIH rightIH =>
    rw [Expr.plain, exprProblems, exprProblems, leftIH, rightIH]
  | _ => rfl

theorem targetProblems_plain (c : Checker) (target : Expr) :
    c.targetProblems target.plain = c.targetProblems target := by
  cases target with
  | unary node op operand =>
    exact congrArg (List.cons _) (exprProblems_plain c (.unary node op operand))
  | binary node op left right =>
    exact congrArg (List.cons _) (exprProblems_plain c (.binary node op left right))
  | _ => rfl

theorem stmtList_plain (each : ∀ s ∈ stmts, ∀ c : Checker, c.stmt (s.plain Ty.itself) = c.stmt s)
    (c : Checker) : c.stmtList (plainList Ty.itself stmts) = c.stmtList stmts := by
  induction stmts generalizing c with
  | nil => simp [plainList]
  | cons s rest ih =>
    simp only [plainList, stmtList, each s (by simp),
      ih fun s member => each s (by simp [member])]

theorem stmt_plain (c : Checker) (s : Stmt) : c.stmt (s.plain Ty.itself) = c.stmt s := by
  induction s using induction generalizing c with
  | absent | bare node | unknown node kind => simp [plain, stmt, Node.plain]
  | block node stmts each => simp only [plain, stmt, stmtList_plain each, Node.plain]
  | decl node mutable name type value =>
    simp only [plain, stmt, exprProblems_plain, Node.plain, Ty.itself]
  | assign node target value =>
    simp only [plain, stmt, exprProblems_plain, targetProblems_plain]
  | ret node value => simp only [plain, stmt, exprProblems_plain]
  | cond node test yes no yesIH noIH =>
    simp only [plain, stmt, exprProblems_plain, yesIH, noIH]
  | loop node test body ih => simp only [plain, stmt, exprProblems_plain, ih]

theorem funcs_plain (c : Checker) (entries : List (Option Func)) :
    c.funcs (entries.map (Option.map (Func.plain Ty.itself))) = c.funcs entries := by
  induction entries generalizing c with
  | nil => rfl
  | cons entry rest ih =>
    have here : c.func (entry.map (Func.plain Ty.itself)) = c.func entry := by
      cases entry with
      | none => rfl
      | some f => simp only [map_some, func, Func.plain, stmt_plain]
    simp only [map_cons, funcs, here, ih]

end Scoping.Checker

theorem Scoping.Table.ofModule_plain (m : Module) :
    Table.ofModule (m.plain Ty.itself) = Table.ofModule m := by
  simp only [Table.ofModule, Module.entries_plain, Checker.funcs_plain]
  rfl

namespace Lowering

theorem expr_plain (e : Expr) : expr e.plain = expr e := by
  induction e with
  | unary node op operand ih => simp only [Expr.plain, expr, ih, Node.plain]
  | binary node op left right leftIH rightIH =>
    simp only [Expr.plain, expr, leftIH, rightIH, Node.plain]
  | _ => rfl

theorem assign_plain (node : NodeId) (target value : Expr) :
    assign node target.plain value.plain = assign node target value := by
  cases target <;> simp only [Expr.plain, assign, expr_plain] <;> rfl

theorem ret_plain (value : Expr) : ret value.plain = ret value := by
  have present {value : Expr} (present : value.isAbsent = false) :
      ret value = expr value >>= fun o => build fun builder => builder.terminate (.ret (some o)) := by
    cases value with
    | absent => cases present
    | _ => rfl
  cases known : value.isAbsent with
  | false => rw [present known, present ((Expr.isAbsent_plain value).trans known), expr_plain]
  | true =>
    cases value with
    | absent => rfl
    | _ => cases known

theorem stmtList_plain (each : ∀ s ∈ stmts, stmt (s.plain Ty.itself) = stmt s) :
    stmtList (plainList Ty.itself stmts) = stmtList stmts := by
  induction stmts with
  | nil => simp [plainList]
  | cons s rest ih =>
    simp only [plainList, stmtList, each s (by simp),
      ih fun s member => each s (by simp [member])]

theorem stmt_plain (s : Stmt) : stmt (s.plain Ty.itself) = stmt s := by
  induction s using induction with
  | absent | bare node | unknown node kind => simp [plain, stmt, Node.plain]
  | block node stmts each => simp only [plain, stmt, stmtList_plain each, Node.plain]
  | decl node mutable name type value =>
    simp only [plain, stmt, decl, expr_plain, Node.plain, Ty.itself, Expr.isAbsent_plain]
  | assign node target value => simp only [plain, stmt, assign_plain, Node.plain]
  | ret node value => simp only [plain, stmt, ret_plain]
  | cond node test yes no yesIH noIH =>
    simp only [plain, stmt, expr_plain, yesIH, noIH, isAbsent_plain]
  | loop node test body ih => simp only [plain, stmt, expr_plain, ih]

theorem func_plain (module : NodeId) (table : Scoping.Table) (f : Func) :
    func module table (f.plain Ty.itself) = func module table f := by
  simp only [func, body, Func.plain, stmt_plain, Ty.itself]

theorem attempts_plain (module : NodeId) (table : Scoping.Table) (entries : List (Option Func)) :
    attempts module table (entries.map (Option.map (Func.plain Ty.itself))) =
      attempts module table entries := by
  induction entries generalizing table with
  | nil => rfl
  | cons entry rest ih =>
    cases entry with
    | none => rfl
    | some f =>
      simp only [map_cons, map_some, attempts, func_plain, ih]
      rfl

theorem module_plain (canceled : Bool) (m : Module) (table : Scoping.Table) :
    module canceled (m.plain Ty.itself) table = module canceled m table := by
  have same : (m.plain Ty.itself).id = m.id := rfl
  simp only [module, Module.entries_plain, attempts_plain, isEmpty_map, same]

end Lowering

end MiddleEnd
