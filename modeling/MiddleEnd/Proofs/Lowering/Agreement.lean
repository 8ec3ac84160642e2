import MiddleEnd.Proofs.Lowering.Lockstep
import MiddleEnd.Proofs.Scoping.Acceptance

/-!
The scope check and lowering agree: an accepted module is lowered unless block code has no form for
one of its nodes.
-/

namespace MiddleEnd

open List Option

variable {t : Table} {m : Module}

/-- A function with an empty entry block, which is selected. -/
def Ir.Builder.entered (name : Text) (result : Ir.Ty) : Ir.Builder :=
  let fresh := (Ir.Builder.start name result []).newBlock
  fresh.1.select fresh.2

namespace Lowering

open Scoping (Binding BindingRef Checker Frame Stack Table)

variable {final : Table} {c c' : Checker} {st : State}

/-- Lowering of the statement goes on with the check, from any point that both have reached, and
gives storage to what a live statement declares. -/
def Agrees (final : Table) (s : Stmt) : Prop :=
  ∀ c c' st, InStep final c st → c.stmt s = .ok c' → c'.problems = [] → c'.table.Within final →
    Decides s.gap? (stmt s) st fun _ st' =>
      Advances final c' st st' ∧
        (st.builder.place?.isSome → ∀ frame ∈ c'.stack.frames, Stored st'.table frame)

theorem clean_report (extends' : (c.report problems).Extends c') (clean : c'.problems = []) :
    problems = [] := by
  have before := extends'.problems
  rw [clean, prefix_nil] at before
  exact (append_eq_nil_iff.mp before).2

theorem agrees_list (each : ∀ s ∈ stmts, Agrees final s) (inStep : InStep final c st)
    (checked : c.stmtList stmts = .ok c') (clean : c'.problems = [])
    (within : c'.table.Within final) :
    Decides (Stmt.gapInList? stmts) (stmtList stmts) st fun _ st' => Advances final c' st st' := by
  induction stmts generalizing c st with
  | nil =>
    cases checked
    simp only [Stmt.gapInList?]
    exact .of_ok rfl (.refl _) ⟨inStep, fun _ _ stored => stored⟩
  | cons s rest ih =>
    obtain ⟨middle, checkedHead, checkedRest⟩ := bind_eq_ok.mp checked
    have head := inStep.kept.stmt checkedHead
    have tail := Checker.stmtList_extends (fun s _ c c' kept => kept.stmt) head.kept checkedRest
    have cleanHead : middle.problems = [] := prefix_nil.mp (clean ▸ tail.problems)
    simp only [stmtList, Stmt.gapInList?]
    refine (each s (by simp) c middle st inStep checkedHead cleanHead
      (tail.within.trans within)).bind fun _ st₁ _ reached => ?_
    exact (ih (fun s member => each s (by simp [member])) reached.1.inStep checkedRest).imp
      fun _ _ _ more => reached.1.trans more tail.outer

variable (coherent : final.Coherent)

include coherent

theorem agrees_decl (node : Node) (mutable : Bool) (name : Text) (type : Ty) (value : Expr) :
    Agrees final (.decl node mutable name type value) := by
  intro c c' st inStep checked clean within
  have reported := inStep.report (c.exprProblems value)
  have declared : (c.report (c.exprProblems value)).declare node.id mutable name type = .ok c' :=
    checked
  have cleanValue := clean_report (reported.kept.declare declared) clean
  rw [Stmt.gap?]
  cases stored : storageType? type with
  | none =>
    rw [decl_unstored node mutable name value stored]
    exact .of_fail
  | some slotType =>
    rw [isSome_some, if_pos rfl, Expr.gapIfAny?]
    cases place : st.builder.place? with
    | none =>
      apply Decides.of_run (decl_dead node mutable name value stored place) rfl
      obtain ⟨st', ran, alike, advances, -⟩ := reported.declare coherent declared clean within
        (by simp [place])
      split
      · exact .of_ok ran alike ⟨advances, by simp⟩
      · refine (expr_decides coherent inStep cleanValue).followed fun o st₁ ranValue _ => ?_
        cases expr_dead place ranValue
        exact .of_ok ran alike ⟨advances, by simp⟩
    | some p =>
      apply Decides.of_run (decl_live node mutable name value stored place) rfl
      have all := inStep.stored (by simp [place])
      have nonneg := Int.natCast_nonneg st.builder.func.locals.length
      split
      · obtain ⟨st', ran, alike, advances, storedNow⟩ := (reported.rebuilt fun _ => all).declare
          coherent declared clean within fun _ => nonneg
        exact .of_ok ran alike
          ⟨⟨advances.inStep, advances.outer⟩, fun _ => storedNow nonneg all⟩
      · refine (expr_decides coherent (inStep.rebuilt fun _ => all) cleanValue).followed
          fun o st₁ ran _ => ?_
        have table := (expr_emitted ran).table
        apply Decides.of_run (build_bind _ _ _) rfl
        have all₁ : ∀ frame ∈ c.stack.frames, Stored st₁.table frame := table ▸ all
        have inStep₁ := ((inStep.rebuilt fun _ => all).expr ran).report (c.exprProblems value)
        obtain ⟨st', ran, alike, advances, storedNow⟩ := (inStep₁.rebuilt fun _ => all₁).declare
          coherent declared clean within fun _ => nonneg
        refine .of_ok ran alike ⟨⟨advances.inStep, fun frame member => ?_⟩,
          fun _ => storedNow nonneg all₁⟩
        have outer := advances.outer frame member
        rw [table] at outer
        exact outer

theorem agrees_assign (node : Node) (target value : Expr) :
    Agrees final (.assign node target value) := by
  intro c c' st inStep checked clean within
  have reported := inStep.report (c.targetProblems target ++ c.exprProblems value)
  cases checked
  obtain ⟨cleanTarget, cleanValue⟩ :=
    append_eq_nil_iff.mp (clean_report reported.kept.refl clean)
  rw [Stmt.gap?]
  cases target with
  | absent => exact .of_fail
  | ident targetNode name =>
    have resolves : (c.stack.resolve? name).isSome := by
      rw [Checker.targetProblems] at cleanTarget
      split at cleanTarget
      · cases cleanTarget
      · next found => simp [found]
    obtain ⟨b, resolved⟩ := inStep.resolve coherent resolves
    apply Decides.of_run (bind_run resolved) rfl
    refine (expr_decides coherent inStep cleanValue).followed fun o st₁ ran _ => ?_
    have emitted := expr_emitted ran
    apply Decides.of_run (isLive_bind _ _) rfl
    have advances := fun builder (grown : Grown st { st₁ with builder := builder }) =>
      reported.grown grown emitted.stack emitted.table
    have stored : st.builder.place?.isSome →
        ∀ frame ∈ (c.report (c.targetProblems (.ident targetNode name) ++
          c.exprProblems value)).stack.frames, Stored st₁.table frame := by
      rw [emitted.table]
      exact reported.stored
    split
    · exact .of_ok rfl (.refl _)
        ⟨advances _ ((Grown.of_expr ran).trans (.of_store ..)), stored⟩
    · exact .of_ok rfl (.refl _) ⟨advances st₁.builder (.of_expr ran), stored⟩
  | _ => simp [Checker.targetProblems] at cleanTarget

theorem agrees_ret (node : Node) (value : Expr) : Agrees final (.ret node value) := by
  intro c c' st inStep checked clean within
  have reported := inStep.report (c.exprProblems value)
  cases checked
  have cleanValue := clean_report reported.kept.refl clean
  rw [Stmt.gap?, Expr.gapIfAny?]
  cases present : value.isAbsent with
  | true =>
    cases value with
    | absent =>
      exact .of_ok rfl (.refl _)
        ⟨reported.grown (.of_terminate st (by simp)) rfl rfl, reported.stored⟩
    | _ => cases present
  | false =>
    rw [ret_eq node present]
    refine (expr_decides coherent inStep cleanValue).followed fun o st₁ ran _ => ?_
    have emitted := expr_emitted ran
    refine .of_ok rfl (.refl _) ⟨reported.grown
      ((Grown.of_expr ran).trans (.of_terminate _ (by simp))) emitted.stack emitted.table, ?_⟩
    change st.builder.place?.isSome → ∀ frame ∈ _, Stored st₁.table frame
    rw [emitted.table]
    exact reported.stored

theorem agrees_cond (node : Node) (test : Expr) {yes no : Stmt} (yesIH : Agrees final yes)
    (noIH : Agrees final no) : Agrees final (.cond node test yes no) := by
  intro c c' st inStep checked clean within
  have reported := inStep.report (c.exprProblems test)
  obtain ⟨c₁, checkedYes, checkedNo⟩ := bind_eq_ok.mp checked
  have extendsYes := reported.kept.stmt checkedYes
  have extendsNo := extendsYes.kept.stmt checkedNo
  have cleanYes : c₁.problems = [] := prefix_nil.mp (clean ▸ extendsNo.problems)
  have cleanTest := clean_report extendsYes cleanYes
  have withinYes := extendsNo.within.trans within
  obtain ⟨rest, whole, behind, ahead⟩ := cond_eq node test yes no
  rw [whole, Stmt.gap?]
  refine (expr_decides coherent inStep cleanTest).bind fun o st₁ ranTest _ => ?_
  have inStep₁ := reported.expr ranTest
  have table := (expr_emitted ranTest).table
  cases place : st₁.builder.place? with
  | none =>
    apply Decides.of_run (behind o st₁ place) rfl
    refine (yesIH _ c₁ st₁ inStep₁ checkedYes cleanYes withinYes).bind fun _ st₂ _ first => ?_
    refine (noIH c₁ c' st₂ first.1.inStep checkedNo clean within).imp
      fun _ st₃ _ second => ⟨?_, fun live => ?_⟩
    · have both := first.1.trans second.1 extendsNo.outer
      exact ⟨both.inStep, table ▸ both.outer⟩
    · obtain ⟨p, live⟩ := isSome_iff_exists.mp live
      obtain ⟨q, still⟩ := (expr_emitted ranTest).place live
      simp [place] at still
  | some p =>
    have forks := Ir.Builder.forks place no.isAbsent
    apply Decides.of_run (ahead o st₁ p _ place rfl) rfl
    generalize st₁.builder.fork no.isAbsent = f at forks
    have branching : Ir.Terminator.branch o f.first f.second ≠ .pending := by simp
    have jumping : Ir.Terminator.goto f.third ≠ .pending := by simp
    have toYes := Ir.Builder.leaves forks.first branching
    have all := inStep₁.stored (by simp [place])
    refine (yesIH _ c₁ _ (inStep₁.rebuilt fun _ => all) checkedYes cleanYes withinYes).bind
      fun _ st₂ ranYes first => ?_
    have storedYes := first.2 (by simp [toYes.place])
    have toNo := Ir.Builder.leaves ((stmt_grown ranYes).grows.aside _
      (toYes.aside _ forks.second forks.second_ne_first)) jumping
    apply Decides.of_run (build_bind _ _ _) rfl
    refine (noIH c₁ c' _ (first.1.inStep.rebuilt fun _ => storedYes) checkedNo clean
      within).followed fun _ st₃ _ second => ?_
    have storedNo := second.2 (by simp [toNo.place])
    have both : Advances final c' st st₃ := by
      refine ⟨second.1.inStep, fun frame member stored => ?_⟩
      apply second.1.outer frame member
      apply first.1.outer frame (extendsNo.outer ▸ member)
      rw [← table] at stored
      exact stored
    split
    · exact .of_ok rfl (.refl _) ⟨both, fun _ => storedNo⟩
    · exact .of_ok rfl (.refl _)
        ⟨⟨both.inStep.rebuilt fun _ => storedNo, both.outer⟩, fun _ => storedNo⟩

theorem agrees_loop (node : Node) (test : Expr) {body : Stmt} (bodyIH : Agrees final body) :
    Agrees final (.loop node test body) := by
  intro c c' st inStep checked clean within
  have reported := inStep.report (c.exprProblems test)
  have checkedBody : (c.report (c.exprProblems test)).stmt body = .ok c' := checked
  have cleanTest := clean_report (reported.kept.stmt checkedBody) clean
  rw [Stmt.gap?]
  cases place : st.builder.place? with
  | none =>
    apply Decides.of_run (loop_dead node test body place) rfl
    refine (expr_decides coherent inStep cleanTest).bind fun o st₁ ranTest _ => ?_
    cases expr_dead place ranTest
    exact (bodyIH _ c' st reported checkedBody clean within).imp
      fun _ _ _ reached => ⟨reached.1, by simp⟩
  | some p =>
    have forks := Ir.Builder.forks place false
    apply Decides.of_run (loop_live node test body place rfl) rfl
    generalize st.builder.fork false = f at forks
    have all := inStep.stored (by simp [place])
    have jumping : Ir.Terminator.goto f.first ≠ .pending := by simp
    have toTest := Ir.Builder.leaves forks.first jumping
    refine (expr_decides coherent (inStep.rebuilt fun _ => all) cleanTest).bind
      fun o st₁ ranTest _ => ?_
    have inStep₁ := ((inStep.rebuilt fun _ => all).expr ranTest).report (c.exprProblems test)
    have table := (expr_emitted ranTest).table
    have all₁ : ∀ frame ∈ c.stack.frames, Stored st₁.table frame := table ▸ all
    have branching : Ir.Terminator.branch o f.second f.third ≠ .pending := by simp
    have toBody := Ir.Builder.leaves ((expr_emitted ranTest).grows.aside _
      (toTest.aside _ forks.second forks.second_ne_first)) branching
    apply Decides.of_run (build_bind _ _ _) rfl
    refine (bodyIH _ c' _ (inStep₁.rebuilt fun _ => all₁) checkedBody clean within).followed
      fun _ st₂ _ reached => ?_
    have stored := reached.2 (by simp [toBody.place])
    refine .of_ok rfl (.refl _)
      ⟨⟨reached.1.inStep.rebuilt fun _ => stored, fun frame member before => ?_⟩, fun _ => stored⟩
    apply reached.1.outer frame member
    rw [← table] at before
    exact before

theorem agrees (s : Stmt) : Agrees final s := by
  induction s using Stmt.induction with
  | absent =>
    intro c c' st inStep checked clean within
    cases checked
    exact .of_ok rfl (.refl _) ⟨⟨inStep, fun _ _ stored => stored⟩, inStep.stored⟩
  | unknown node kind =>
    intro c c' st inStep checked clean within
    exact .of_fail
  | bare node =>
    intro c c' st inStep checked clean within
    obtain ⟨opened, pushed, popped⟩ := bind_eq_ok.mp checked
    have same := (Checker.Extends.closed inStep.kept pushed
      (inStep.kept.push pushed).1.refl popped).2.2
    obtain ⟨ranPush, inStep₁⟩ := inStep.push coherent pushed (same ▸ within)
    have ranPop := inStep₁.pop coherent (same ▸ within) popped
    obtain ⟨advances, stored⟩ := Advances.close inStep pushed (inStep.kept.push pushed).1.refl
      popped ⟨inStep₁, fun _ _ stored => stored⟩ (.of_builder rfl)
    exact .of_ok ((bind_run ranPush).trans ranPop) (.refl _) ⟨advances, stored⟩
  | block node stmts each =>
    intro c c' st inStep checked clean within
    obtain ⟨opened, pushed, rest⟩ := bind_eq_ok.mp checked
    obtain ⟨filled, checkedInner, popped⟩ := bind_eq_ok.mp rest
    have inside := Checker.stmtList_extends (fun s _ c c' kept => kept.stmt)
      (inStep.kept.push pushed).1 checkedInner
    have withinFilled : filled.table.Within final :=
      (Checker.Extends.closed inStep.kept pushed inside popped).2.2 ▸ within
    obtain ⟨ranPush, inStep₁⟩ := inStep.push coherent pushed (inside.within.trans withinFilled)
    have cleanFilled : filled.problems = [] := by
      obtain ⟨frame, outer, -, -, rfl⟩ := Checker.pop_eq_ok popped
      exact clean
    simp only [stmt, Stmt.gap?]
    apply Decides.of_run (bind_run ranPush) rfl
    refine (agrees_list each inStep₁ checkedInner cleanFilled withinFilled).followed
      fun _ st₂ ranInner advances => ?_
    have ranPop := advances.inStep.pop coherent withinFilled popped
    have grown := stmtList_grown ranInner
    exact .of_ok ranPop (.refl _) (Advances.close inStep pushed inside popped advances grown)
  | decl node mutable name type value => exact agrees_decl coherent node mutable name type value
  | assign node target value => exact agrees_assign coherent node target value
  | ret node value => exact agrees_ret coherent node value
  | cond node test yes no yesIH noIH => exact agrees_cond coherent node test yesIH noIH
  | loop node test body ih => exact agrees_loop coherent node test ih

section Passes

variable {module : NodeId} {f : Func} {inModule opened filled : Checker}
  (passes : Checker.Passes final module f inModule c opened filled c')

include passes

theorem body_enters (alike : final.Alike t) (name : Text) (result : Ir.Ty) :
    InStep final opened ⟨.entered name result, opened.stack, t⟩ ∧
      (∀ frame ∈ opened.stack.frames, frame.visible = []) ∧
      body module f ⟨.start name result [], .empty, t⟩ =
        (stmt f.body >>= fun _ => pop f.id >>= fun _ => pop module)
          ⟨.entered name result, opened.stack, t⟩ := by
  obtain ⟨entered, withinModule, kept, stack, pushed, checked, -, -, within⟩ := passes
  have kept₀ : Checker.start.Kept := ⟨Table.coherent_empty, trivial⟩
  have outside : InStep final .start ⟨.start name result [], .empty, t⟩ :=
    ⟨kept₀, rfl, alike, fun _ member => (nomatch member), fun _ _ member => (nomatch member)⟩
  obtain ⟨ranModule, inStep₀⟩ := outside.push coherent entered withinModule
  have inStep : InStep final c ⟨.start name result [], inModule.stack, t⟩ :=
    ⟨kept, stack.symm, alike, by rw [stack]; exact inStep₀.bound, by rw [stack]; exact inStep₀.stored⟩
  obtain ⟨ranFunction, inStep₁⟩ := inStep.push coherent pushed
    (((kept.push pushed).1.stmt checked).within.trans within)
  have bare : ∀ frame ∈ opened.stack.frames, frame.visible = [] := by
    obtain ⟨_, -, rfl⟩ := Checker.push_eq_ok pushed
    obtain ⟨_, -, rfl⟩ := Checker.push_eq_ok entered
    rw [stack]
    exact forall_mem_cons.mpr ⟨rfl, forall_mem_singleton.mpr rfl⟩
  refine ⟨inStep₁.rebuilt fun _ frame member name ref b visible => ?_, bare, ?_⟩
  · rw [bare frame member] at visible
    cases visible
  · rw [body, bind_run ranModule, bind_run ranFunction, produce_bind, build_bind]
    rfl

theorem body_leaves (inStep : InStep final filled st) :
    (pop f.id >>= fun _ => pop module) st = .ok () { st with stack := ⟨[]⟩ } := by
  obtain ⟨entered, -, kept, stack, pushed, checked, popped, -, within⟩ := passes
  rw [bind_run (inStep.pop coherent within popped)]
  obtain ⟨whole, stack', -⟩ := Checker.Extends.closed kept pushed
    ((kept.push pushed).1.stmt checked) popped
  have stack' : c'.stack = ⟨[⟨module, []⟩]⟩ := by
    obtain ⟨_, -, rfl⟩ := Checker.push_eq_ok entered
    exact stack'.trans stack
  have inStep' : InStep final c' { st with stack := c'.stack } := by
    refine ⟨whole.kept, rfl, inStep.alike, ?_, fun _ => ?_⟩
    · rw [stack']
      exact forall_mem_singleton.mpr fun _ _ visible => nomatch visible
    · rw [stack']
      exact forall_mem_singleton.mpr fun _ _ _ visible => nomatch visible
  have poppedModule : c'.pop module = .ok { c' with stack := ⟨[]⟩ } := by
    have recorded := whole.kept.chained.recorded ⟨module, []⟩ (by simp [stack'])
    rw [Checker.pop, stack', Stack.pop_cons whole.kept.coherent [] recorded]
    rfl
  exact inStep'.pop coherent (Checker.pop_table popped ▸ within) poppedModule

theorem body_decides (alike : final.Alike t) (name : Text) (result : Ir.Ty) :
    Decides f.body.gap? (body module f) ⟨.start name result [], .empty, t⟩ fun _ _ => True := by
  obtain ⟨inStep, -, entered⟩ := body_enters coherent passes alike name result
  apply Decides.of_run entered rfl
  refine (agrees coherent f.body opened filled _ inStep passes.body passes.clean
    passes.within).followed fun _ st₁ _ reached => ?_
  exact .of_ok (body_leaves coherent passes reached.1.inStep) (.refl _) trivial

end Passes

omit coherent

/-- As long as the scopes and names of the table stayed, a function of an accepted module is
lowered, or fails over the first node without a form in block code. -/
theorem func_outcome (accepted : Table.ofModule m = .ok final) (member : some f ∈ m.entries)
    (alike : final.Alike t) :
    final.Alike (func m.id t f).2 ∧
      ((f.gap? = none ∧ ∃ g, (func m.id t f).1 = .ok g) ∨
        ∃ u, f.gap? = some u ∧ (func m.id t f).1 = .error (.unimplemented u)) := by
  obtain ⟨coherent, each⟩ := Table.ofModule_passes accepted
  obtain ⟨_, inModule, c, opened, filled, c', same, passes⟩ := each _ member
  cases same
  rw [Func.gap?]
  cases known : resultType? f.result with
  | none =>
    simp only [func, known]
    exact ⟨alike, .inr ⟨_, rfl, rfl⟩⟩
  | some result =>
    have decides := body_decides coherent passes alike f.name result
    rw [Decides] at decides
    simp only [func, known, EStateM.run, isSome_some, if_true]
    cases ran : body m.id f ⟨.start f.name result [], .empty, t⟩ with
    | ok _ st' =>
      rw [ran] at decides
      exact ⟨alike.trans decides.2.1, .inl ⟨decides.1, _, rfl⟩⟩
    | error e st' =>
      rw [ran] at decides
      obtain ⟨u, gap, rfl⟩ := map_eq_some_iff.mp decides.1
      exact ⟨alike.trans decides.2, .inr ⟨u, gap, rfl⟩⟩

theorem func_decides (accepted : Table.ofModule m = .ok final) (member : some f ∈ m.entries)
    (alike : final.Alike t) :
    final.Alike (func m.id t f).2 ∧
      ((f.Supported ∧ ∃ g, (func m.id t f).1 = .ok g) ∨
        (¬ f.Supported ∧ ∃ u, (func m.id t f).1 = .error (.unimplemented u))) := by
  rw [← f.gap?_eq_none]
  obtain ⟨alike', lowered | ⟨u, gap, failed⟩⟩ := func_outcome accepted member alike
  · exact ⟨alike', .inl lowered⟩
  · exact ⟨alike', .inr ⟨by simp [gap], u, failed⟩⟩

theorem attempts_decide (accepted : Table.ofModule m = .ok final)
    (members : ∀ entry ∈ entries, entry ∈ m.entries) (alike : final.Alike t) :
    ((∀ f, some f ∈ entries → f.Supported) ∧ ∃ fs, collect (attempts m.id t entries).1 = .ok fs) ∨
      (¬ (∀ f, some f ∈ entries → f.Supported) ∧ ∃ f u, some f ∈ entries ∧
        collect (attempts m.id t entries).1 = .error (.inFunction ⟨f.name, .unimplemented u⟩)) := by
  induction entries generalizing t with
  | nil => exact .inl ⟨by simp, [], rfl⟩
  | cons entry rest ih =>
    obtain ⟨f, rfl⟩ := Table.ofModule_entry accepted (members entry (by simp))
    obtain ⟨alike', outcome⟩ := func_decides accepted (members (some f) (by simp)) alike
    cases lowered : func m.id t f with
    | mk result t' =>
      rw [lowered] at alike' outcome
      obtain ⟨supported, g, rfl⟩ | ⟨unsupported, u, rfl⟩ := outcome
      · have others := ih (fun entry member => members entry (by simp [member])) alike'
        simp only [attempts, lowered, collect, ok_mapError, ok_bind, mem_cons,
          Option.some.injEq, forall_eq_or_imp]
        obtain ⟨all, fs, collected⟩ | ⟨refuted, f', u, inside, failed⟩ := others
        · exact .inl ⟨⟨supported, all⟩, g :: fs, by rw [collected, ok_bind]⟩
        · refine .inr ⟨fun all => refuted all.2, f', u, .inr inside, ?_⟩
          rw [failed, error_bind]
      · simp only [attempts, lowered, collect, error_mapError, error_bind]
        exact .inr ⟨fun all => unsupported (all f (by simp)), f, u, by simp, rfl⟩

theorem module_decides (accepted : Table.ofModule m = .ok table) :
    (m.Supported ∧ ∃ lowered, (module false m table).result = .ok lowered) ∨
      (¬ m.Supported ∧ ∃ f u, some f ∈ m.entries ∧
        (module false m table).result = .error (.inFunction ⟨f.name, .unimplemented u⟩)) := by
  have result : (module false m table).result =
      (collect (attempts m.id table m.entries).1).map Ir.Module.ofFuncs := rfl
  rw [result, Module.supported_iff]
  obtain ⟨all, fs, collected⟩ | ⟨unsupported, f, u, member, failed⟩ :=
    attempts_decide accepted (fun _ member => member) (.refl table)
  · exact .inl ⟨all, _, by rw [collected]; rfl⟩
  · exact .inr ⟨unsupported, f, u, member, by rw [failed]; rfl⟩

theorem lowers_of_supported (accepted : Table.ofModule m = .ok table) (supported : m.Supported) :
    ∃ lowered, (module false m table).result = .ok lowered := by
  obtain ⟨-, lowers⟩ | ⟨unsupported, -⟩ := module_decides accepted
  · exact lowers
  · exact absurd supported unsupported

/-- Lowering succeeds on an accepted module exactly where every node has a form in block code, and
else fails over a node that has none. -/
theorem accepted_lowers_iff_supported {m : Module} {table : Table}
    (accepted : Table.ofModule m = .ok table) :
    ((∃ lowered, (module false m table).result = .ok lowered) ↔ m.Supported) ∧
      ∀ failure, (module false m table).result = .error failure →
        ∃ f u, some f ∈ m.entries ∧ failure = .inFunction ⟨f.name, .unimplemented u⟩ := by
  obtain ⟨supported, lowered, result⟩ | ⟨unsupported, f, u, member, result⟩ :=
    module_decides accepted
  · rw [result]
    exact ⟨iff_of_true ⟨_, rfl⟩ supported, fun failure absurd => nomatch absurd⟩
  · rw [result]
    refine ⟨iff_of_false (fun ⟨_, absurd⟩ => nomatch absurd) unsupported, fun failure same => ?_⟩
    cases same
    exact ⟨f, u, member, rfl⟩

/-- Returns in front of a variable that no slot can hold. -/
def textBehindReturn : Module where
  id := 1
  name := [109]
  funcs := some [some {
    id := 2
    name := [102]
    result := .int
    body := .block ⟨3, []⟩ (some [
      .decl ⟨4, []⟩ true [120] .int (.int ⟨5, []⟩ 1),
      .cond ⟨6, []⟩ (.binary ⟨7, []⟩ .eq (.ident ⟨8, []⟩ [120]) (.int ⟨9, []⟩ 1))
        (.block ⟨10, []⟩ (some [
          .ret ⟨11, []⟩ (.ident ⟨12, []⟩ [120]),
          .decl ⟨13, []⟩ true [115] .string .absent]))
        .absent,
      .ret ⟨14, []⟩ (.ident ⟨15, []⟩ [120])]) }]

theorem textBehindReturn_accepted : ∃ t, Table.ofModule textBehindReturn = .ok t :=
  (Table.ofModule_isOk_iff ⟨by decide, by decide⟩).mpr (by decide)

/-- Shadowed names and bare declarations are lowered, text is not, not even behind a return. -/
theorem shadowing_lowers_and_text_does_not :
    (∃ table lowered, Table.ofModule Scoping.shadowing = .ok table ∧
      (module false Scoping.shadowing table).result = .ok lowered) ∧
    ∃ table f u, Table.ofModule textBehindReturn = .ok table ∧
      some f ∈ textBehindReturn.entries ∧
      (module false textBehindReturn table).result =
        .error (.inFunction ⟨f.name, .unimplemented u⟩) := by
  constructor
  · obtain ⟨table, accepted⟩ := Scoping.shadowing_accepted
    obtain ⟨lowered, succeeded⟩ := (accepted_lowers_iff_supported accepted).1.mpr (by decide)
    exact ⟨table, lowered, accepted, succeeded⟩
  · obtain ⟨table, accepted⟩ := textBehindReturn_accepted
    obtain ⟨lowers, fails⟩ := accepted_lowers_iff_supported accepted
    cases result : (module false textBehindReturn table).result with
    | ok lowered => exact absurd (lowers.mp ⟨lowered, result⟩) (by decide)
    | error failure =>
      obtain ⟨f, u, member, rfl⟩ := fails failure result
      exact ⟨table, f, u, accepted, member, result⟩

end Lowering

end MiddleEnd
