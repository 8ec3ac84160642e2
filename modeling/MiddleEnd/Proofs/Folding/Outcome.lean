import MiddleEnd.Proofs.Folding.Nodes
import MiddleEnd.Proofs.Scoping.Checking
import MiddleEnd.Proofs.Semantics.Evaluation

/-!
Folding keeps the outcome of every function, as long as no declaration stands as a branch of its
own.
-/

namespace MiddleEnd

variable {combine : BinaryOp → Constant → Constant → Applied} {env : Env} {cells : Cells}

namespace Expr

@[simp] theorem eval_literal (ops : TruthOperators) (id : NodeId) (v : Constant) :
    (literal id v).eval ops env cells = .ok v := by
  cases v <;> rfl

theorem eval_fold {e : Expr} (equation : e.fold = .ok folded) :
    folded.eval (.negating combine) env cells = e.eval (.negating combine) env cells := by
  replace equation := folds_of_fold equation
  induction equation with
  | absent | int | bool | ident => rfl
  | complement _ ih | negation _ ih =>
    rw [eval_literal, eval, ← ih]
    rfl
  | unary _ _ _ ih => rw [eval, eval, ih]
  | @ints _ _ _ op l r _ _ _ _ _ applied leftIH rightIH =>
    rw [eval_literal, eval, ← leftIH, ← rightIH]
    simp only [eval, ok_bind, TruthOperators.binary, ← op.applyInts_eq_onInts l r, applied]
    rfl
  | binary _ _ _ _ _ leftIH rightIH => rw [eval, eval, leftIH, rightIH]

theorem fold_shape {e : Expr} (equation : e.fold = .ok folded) :
    folded.isAbsent = e.isAbsent ∧ folded.name? = e.name? := by
  cases folds_of_fold equation with
  | @ints _ _ _ _ _ _ v => cases v <;> exact ⟨rfl, rfl⟩
  | _ => exact ⟨rfl, rfl⟩

end Expr

namespace Stmt

theorem exec_orEmpty (ops : TruthOperators) (fuel : Nat) (folded source : Stmt) (env : Env)
    (cells : Cells) :
    (orEmpty folded source).exec ops fuel env cells = folded.exec ops fuel env cells := by
  rcases orEmpty_cases folded source with kept | ⟨rfl, _, empty⟩
  · rw [kept]
  · rw [empty]
    rfl

theorem execList_fold (braced : BracedList stmts) (equation : foldList stmts = .ok folded)
    (each : ∀ s ∈ stmts, ∀ {s'}, s.Braced → fold s = .ok s' → ∀ env cells,
      s'.exec (.negating combine) fuel env cells = s.exec (.negating combine) fuel env cells)
    (env : Env) (cells : Cells) :
    execList (.negating combine) fuel env cells folded =
      execList (.negating combine) fuel env cells stmts := by
  induction stmts generalizing folded env cells with
  | nil => cases equation; rfl
  | cons s rest ih =>
    simp only [BracedList] at braced
    obtain ⟨s', rest', headFolded, restFolded, shape⟩ := foldList_cons equation
    have head := each s (by simp) braced.1 headFolded env cells
    have tail : ∀ cells, execList (.negating combine) fuel (s'.declare env) cells rest' =
        execList (.negating combine) fuel (s.declare env) cells rest := by
      intro cells
      rw [declare_fold braced.1 headFolded]
      exact ih braced.2 restFolded (fun t member => each t (by simp [member])) _ _
    simp only [execList]
    rcases shape with ⟨rfl, rfl⟩ | rfl
    · rw [← head]
      exact tail cells
    · simp only [execList, head, tail]

theorem exec_fold {fuel : Nat} (braced : s.Braced) (equation : fold s = .ok folded) (env : Env)
    (cells : Cells) :
    folded.exec (.negating combine) fuel env cells = s.exec (.negating combine) fuel env cells := by
  induction s using Stmt.induction generalizing folded env cells with
  | absent => cases equation; rfl
  | bare node => cases equation; rfl
  | block node stmts ih =>
    simp only [Braced] at braced
    obtain ⟨stmts', stmtsFolded, rfl⟩ := fold_block equation
    simp only [exec]
    exact execList_fold braced stmtsFolded (fun s member _ => ih s member) _ cells
  | decl node mutable name type value =>
    obtain ⟨value', valueFolded, rfl⟩ := fold_decl equation
    simp only [exec, Expr.eval_fold valueFolded, (Expr.fold_shape valueFolded).1]
  | assign node target value =>
    obtain ⟨target', value', targetFolded, valueFolded, rfl⟩ := fold_assign equation
    simp only [exec, Expr.eval_fold valueFolded, (Expr.fold_shape targetFolded).2]
  | ret node value =>
    obtain ⟨value', valueFolded, rfl⟩ := fold_ret equation
    simp only [exec, Expr.eval_fold valueFolded, (Expr.fold_shape valueFolded).1]
  | cond node test yes no ihYes ihNo =>
    simp only [Braced] at braced
    obtain ⟨yesNoDecl, -, yesBraced, noBraced⟩ := braced
    have yesKeeps := declare_of_braced yesBraced yesNoDecl env
    rcases fold_cond equation with ⟨n, testFolded, taken⟩ | ⟨n, testFolded, taken⟩ |
      ⟨test', yes', no', testFolded, yesFolded, noFolded, rfl⟩
    · have known : test.eval (.negating combine) env cells = .ok (.bool true) := by
        rw [← Expr.eval_fold testFolded]
        rfl
      simp only [exec, known, Flow.choose]
      exact ihYes yesBraced taken env cells
    · have known : test.eval (.negating combine) env cells = .ok (.bool false) := by
        rw [← Expr.eval_fold testFolded]
        rfl
      simp only [exec, known, Flow.choose, yesKeeps]
      exact ihNo noBraced taken env cells
    · simp only [exec, exec_orEmpty, declare_orEmpty, Expr.eval_fold testFolded]
      rw [ihYes yesBraced yesFolded, declare_fold yesBraced yesFolded, ihNo noBraced noFolded]
  | loop node test body ih =>
    simp only [Braced] at braced
    obtain ⟨test', body', testFolded, bodyFolded, rfl⟩ := fold_loop equation
    simp only [exec, exec_orEmpty, Expr.eval_fold testFolded, ih braced.2 bodyFolded]
  | unknown node kind => cases equation

end Stmt

theorem Func.run_fold {f folded : Func} (braced : f.body.Braced) (equation : f.fold = .ok folded)
    (fuel : Nat) (cells : Cells) :
    folded.run (.negating combine) fuel cells = f.run (.negating combine) fuel cells := by
  obtain ⟨body, bodyFolded, rfl⟩ := Func.fold_eq_ok equation
  simp only [run, Stmt.exec_orEmpty, Stmt.exec_fold braced bodyFolded]

/-- Every function of a folded module ends as the function it was folded from, or diverges with it.
Folding itself negates truth values, so negation has to be the usual one. -/
theorem fold_preserves_outcomes {m folded : Module}
    (braced : ∀ f, some f ∈ m.entries → f.body.Braced) (equation : m.fold = .ok folded)
    (i : Nat) (f : Func) (function : m.entries[i]? = some (some f))
    (combine : BinaryOp → Constant → Constant → Applied) (cells : Cells) :
    ∃ f', folded.entries[i]? = some (some f') ∧
      (∀ outcome, f'.Ends (.negating combine) cells outcome ↔
        f.Ends (.negating combine) cells outcome) ∧
      (f'.Diverges (.negating combine) cells ↔ f.Diverges (.negating combine) cells) := by
  obtain ⟨funcs, entriesFolded, rfl⟩ := Module.fold_eq_ok equation
  obtain ⟨f', funcFolded, kept⟩ := (Module.foldEntries_getElem? entriesFolded i).1 f function
  have same := @Func.run_fold combine f f' (braced f (List.mem_of_getElem? function)) funcFolded
  refine ⟨f', kept, fun outcome => ?_, ?_⟩
  · simp only [Func.Ends, same]
  · simp only [Func.Diverges, same]

/-- Counts a variable up to six. One branch is never taken, the loop bound is computed, and the last
conditional is decided. -/
def countToSix : Module where
  id := 1
  name := [109]
  funcs := some [some {
    id := 2
    name := [102]
    result := .int
    body := .block ⟨3, []⟩ (some [
      .decl ⟨4, []⟩ true [120] .int (.int ⟨5, []⟩ 4),
      .loop ⟨6, []⟩
        (.binary ⟨7, []⟩ .lt (.ident ⟨8, []⟩ [120])
          (.binary ⟨9, []⟩ .mul (.int ⟨10, []⟩ 2) (.int ⟨11, []⟩ 3)))
        (.block ⟨12, []⟩ (some [
          .cond ⟨13, []⟩ (.bool ⟨14, []⟩ false)
            (.assign ⟨15, []⟩ (.ident ⟨16, []⟩ [120]) (.int ⟨17, []⟩ 0)) .absent,
          .assign ⟨18, []⟩ (.ident ⟨19, []⟩ [120])
            (.binary ⟨20, []⟩ .add (.ident ⟨21, []⟩ [120]) (.int ⟨22, []⟩ 1))])),
      .cond ⟨23, []⟩ (.unary ⟨24, []⟩ .not (.bool ⟨25, []⟩ false))
        (.block ⟨26, []⟩ (some [.ret ⟨27, []⟩ (.ident ⟨28, []⟩ [120])]))
        (.block ⟨29, []⟩ none)]) }]

theorem countToSix_fold :
    (∀ f, some f ∈ countToSix.entries → f.body.Braced) ∧ ∃ folded, countToSix.fold = .ok folded ∧
      ∃ f', folded.entries[0]? = some (some f') ∧
        ∀ combine cells, f'.Ends (.negating combine) cells (.returned (some (.int 6))) := by
  have braced : ∀ f, some f ∈ countToSix.entries → f.body.Braced := by
    simp [countToSix, Module.entries, Stmt.Braced, Stmt.BracedList, Stmt.isDecl]
  obtain ⟨folded, equation⟩ : ∃ folded, countToSix.fold = .ok folded := ⟨_, rfl⟩
  have preserved := fold_preserves_outcomes braced equation 0 _ rfl
  obtain ⟨f', function, -⟩ := preserved (fun _ _ _ => .meaningless) fun _ => .int 0
  refine ⟨braced, folded, equation, f', function, fun combine cells => ?_⟩
  obtain ⟨f'', function', ends, -⟩ := preserved combine cells
  cases function.symm.trans function'
  exact (ends _).mpr ⟨3, rfl⟩

/-- Negates a literal. -/
def negatesTrue : Module where
  id := 1
  name := [109]
  funcs := some [some {
    id := 2
    name := [102]
    result := .bool
    body := .block ⟨3, []⟩ (some [.ret ⟨4, []⟩ (.unary ⟨5, []⟩ .not (.bool ⟨6, []⟩ true))]) }]

/-- Negation leaves truth values as they are. -/
def TruthOperators.keeping : TruthOperators := ⟨.bool, fun _ _ _ => .meaningless⟩

/-- Under such a negation folding changes what a function returns. -/
theorem negatesTrue_fold :
    negatesTrue.Numbered ∧ (∃ table, Scoping.Table.ofModule negatesTrue = .ok table) ∧
      (∀ f, some f ∈ negatesTrue.entries → f.body.Braced) ∧
      ∃ folded f f', negatesTrue.fold = .ok folded ∧ negatesTrue.entries[0]? = some (some f) ∧
        folded.entries[0]? = some (some f') ∧
        ∀ cells, f.Ends .keeping cells (.returned (some (.bool true))) ∧
          ¬ f'.Ends .keeping cells (.returned (some (.bool true))) := by
  refine ⟨⟨by decide, by decide⟩, ?_, ?_, _, _, _, rfl, rfl, rfl, fun cells => ⟨⟨0, rfl⟩, ?_⟩⟩
  · exact (Scoping.Table.ofModule_isOk_iff ⟨by decide, by decide⟩).mpr (by decide)
  · simp [negatesTrue, Module.entries, Stmt.Braced, Stmt.BracedList]
  · rintro ⟨fuel, ran⟩
    cases ran

end MiddleEnd
