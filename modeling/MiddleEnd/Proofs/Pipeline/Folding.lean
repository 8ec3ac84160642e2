import MiddleEnd.Proofs.Folding.Names
import MiddleEnd.Proofs.Folding.Typing
import MiddleEnd.Proofs.Lowering.Typing
import MiddleEnd.Proofs.Pipeline.Output

/-!
What a module must be like to compile, told without the stages. Folding keeps a module like this.
-/

namespace MiddleEnd

open List Option

variable {m m' : Module} {o : Options}

/-- Nothing in the module is for a stage to complain of. -/
structure Module.Compilable (m : Module) : Prop where
  wellScoped : m.WellScoped
  supported : m.Supported
  typed : ∀ f, some f ∈ m.entries → f.Typed

theorem Module.WellScoped.fold (wellScoped : m.WellScoped) (numbered : m.Numbered)
    (braced : ∀ f, some f ∈ m.entries → f.body.Braced) (equation : m.fold = .ok m') :
    m'.WellScoped := by
  apply (Module.fold_restricts numbered wellScoped equation).2
  intro u d member means
  obtain ⟨d', means'⟩ := Module.mem_identifiers.mp member
  have before := Module.uses_fold wellScoped.complete equation braced means'
  cases numbered.uses_unique before means
  exact decide_eq_true (Module.mem_declarations_of_uses means')

theorem Module.Compilable.fold (compilable : m.Compilable) (numbered : m.Numbered)
    (braced : ∀ f, some f ∈ m.entries → f.body.Braced) (equation : m.fold = .ok m') :
    m'.Compilable where
  wellScoped := compilable.wellScoped.fold numbered braced equation
  supported := by
    have delivers := Module.fold_supported compilable.supported
    rwa [equation] at delivers
  typed f' member := by
    obtain ⟨funcs, entriesFolded, rfl⟩ := Module.fold_eq_ok equation
    obtain ⟨i, found⟩ := List.getElem?_of_mem member
    obtain ⟨f, function, funcFolded⟩ := (Module.foldEntries_getElem? entriesFolded i).2 f' found
    have source := mem_of_getElem? function
    exact (compilable.typed f source).fold (braced f source) funcFolded

namespace Pipeline

/-- The settings ask for a text that there is. -/
def Options.Renders (o : Options) : Prop :=
  o.emitMode = Text.ofString "ast" ∨ o.emitMode = Text.ofString "ir"

theorem render_isSome (o : Options) (m : Module) (code : Ir.Module) :
    (render o.emitMode m code).toOption.isSome ↔ o.Renders := by
  unfold render Options.Renders
  simp only [beq_iff_eq]
  split
  · next tree => exact iff_of_true rfl (.inl tree)
  · next noTree =>
    split
    · next listing => exact iff_of_true rfl (.inr listing)
    · next noListing =>
      refine iff_of_false ?_ fun renders => renders.elim noTree noListing
      exact Bool.false_ne_true

theorem valid?_eq_some : valid? code = some code' ↔ code.faults = [] ∧ code = code' := by
  unfold valid?
  simp only [ite_none_right_eq_some, List.isEmpty_iff, Option.some.injEq]

theorem output?_isSome_iff (unfolded : o.fold = false) (running : o.canceled = false)
    (numbered : m.Numbered) : (output? o m).isSome ↔ m.Compilable ∧ o.Renders := by
  simp only [output?, unfolded, running, Bool.false_eq_true, if_false, bind_some]
  constructor
  · intro made
    obtain ⟨output, made⟩ := isSome_iff_exists.mp made
    obtain ⟨table, checked, made⟩ := bind_eq_some_iff.mp made
    obtain ⟨lowered, didLower, made⟩ := bind_eq_some_iff.mp made
    obtain ⟨code, validated, made⟩ := bind_eq_some_iff.mp made
    obtain ⟨code', -, rendered⟩ := bind_eq_some_iff.mp made
    have accepted := toOption_eq_some.mp checked
    have succeeded := toOption_eq_some.mp didLower
    have supported := lowered_supported accepted succeeded
    refine ⟨⟨(Scoping.Table.ofModule_eq_ok numbered accepted).1, supported, ?_⟩, ?_⟩
    · exact (Lowering.module_faultless_iff numbered accepted supported succeeded).mp
        (valid?_eq_some.mp validated).1
    · exact (render_isSome o m code').mp (by simp [rendered])
  · rintro ⟨⟨wellScoped, supported, typed⟩, renders⟩
    obtain ⟨table, accepted⟩ := (Scoping.Table.ofModule_isOk_iff numbered).mpr wellScoped
    obtain ⟨lowered, succeeded⟩ := Lowering.lowers_of_supported accepted supported
    have faultless :=
      (Lowering.module_faultless_iff numbered accepted supported succeeded).mpr typed
    have validated := valid?_eq_some.mpr ⟨faultless, rfl⟩
    rw [accepted, toOption_ok, bind_some, succeeded, toOption_ok, bind_some, validated, bind_some]
    split
    · have simplified := valid?_eq_some.mpr ⟨(simplified_valid succeeded faultless).2, rfl⟩
      rw [simplified, bind_some]
      exact (render_isSome o m _).mpr renders
    · rw [bind_some]
      exact (render_isSome o m _).mpr renders

theorem compile_isOk_iff (version : Text) (o : Options) (m : Module) (files : FileTree) :
    (∃ compiled, (compile version o none (some m) files).result = .ok compiled) ↔
      (output? o m).isSome := by
  have same : (compile version o none (some m) files).result = (produced o m files).result :=
    (compile_same version o none m files).result
  rw [same, ← produced_output o m files, isSome_map]
  cases (produced o m files).result with
  | ok compiled => exact iff_of_true ⟨compiled, rfl⟩ rfl
  | error e => exact iff_of_false (by simp) Bool.false_ne_true

theorem output?_fold (equation : m.fold = .ok m') :
    output? { o with fold := true } m = output? { o with fold := false } m' := by
  simp only [output?, equation, if_true, toOption_ok, bind_some, Bool.false_eq_true, if_false]
  rfl

theorem compile_fold_error (failed : m.fold = .error e) :
    (compile version { o with fold := true } none (some m) files).result =
      .error (.ofModuleFold e) := by
  rw [(compile_same _ _ _ _ _).result, bare, produced_result, staged]
  simp only [failed, if_true, error_mapError, error_bind, error_map]

/-- A module that compiles without folding compiles with it, whatever else is asked for and in
whatever turns its functions are lowered then, unless folding itself meets a division by zero. -/
theorem folding_adds_only_divisions {version : Text} {o : Options} {m : Module} {files : FileTree}
    {compiled : Compiled} (numbered : m.Numbered)
    (braced : ∀ f, some f ∈ m.entries → f.body.Braced) (running : o.canceled = false)
    (succeeded :
      (compile version { o with fold := false } none (some m) files).result = .ok compiled)
    (schedule : List Nat) :
    (∃ folded, (compile version { o with fold := true, schedule } none (some m) files).result =
      .ok folded) ∨
    ∃ name division,
      (compile version { o with fold := true, schedule } none (some m) files).result =
        .error (.inFunction name (.division division)) := by
  have made := (compile_isOk_iff version { o with fold := false } m files).mp ⟨compiled, succeeded⟩
  obtain ⟨compilable, renders⟩ :=
    (output?_isSome_iff (o := { o with fold := false }) rfl running numbered).mp made
  have delivers := Module.fold_supported compilable.supported
  cases equation : m.fold with
  | ok m' =>
    left
    rw [compile_isOk_iff, output?_fold (o := { o with schedule }) equation]
    have numbered' := numbered.fold compilable.wellScoped.complete equation
    exact (output?_isSome_iff (o := { o with fold := false, schedule }) rfl running numbered').mpr
      ⟨compilable.fold numbered braced equation, renders⟩
  | error e =>
    right
    rw [equation] at delivers
    obtain ⟨division, cause⟩ := delivers
    refine ⟨e.name, division, ?_⟩
    rw [compile_fold_error (o := { o with schedule }) equation, Failure.ofModuleFold, cause]
    rfl

/-- Divides by zero behind a return, where control never comes. -/
def dividesBehindReturn : Module where
  id := 1
  name := [109]
  funcs := some [some {
    id := 2
    name := [102]
    result := .int
    body := .block ⟨3, []⟩ (some [
      .decl ⟨4, []⟩ true [120] .int (.int ⟨5, []⟩ 1),
      .ret ⟨6, []⟩ (.ident ⟨7, []⟩ [120]),
      .assign ⟨8, []⟩ (.ident ⟨9, []⟩ [120])
        (.binary ⟨10, []⟩ .div (.int ⟨11, []⟩ 6) (.int ⟨12, []⟩ 0))]) }]

theorem dividesBehindReturn_compilable : dividesBehindReturn.Compilable where
  wellScoped := by decide
  supported := by decide
  typed f member := by
    cases mem_singleton.mp member
    refine ⟨_, .i32, Stmt.Supported.cellTyped (all_eq_true.mp rfl) (by decide), rfl, ?_⟩
    simp [Stmt.Typed, Stmt.TypedList, Expr.Typed, Expr.type, Expr.isAbsent, Stmt.declare,
      Env.ofFunction, Env.declare, Env.find?]
    exact ⟨rfl, fun _ => ⟨rfl, fun stays => absurd stays.symm Bool.false_ne_true⟩⟩

/-- Such a division is all the same to the other stages, and folding does refuse it. -/
theorem dividesBehindReturn_folding :
    (∃ compiled, (compile [] {} none (some dividesBehindReturn) default).result = .ok compiled) ∧
    ∃ name division,
      (compile [] { fold := true } none (some dividesBehindReturn) default).result =
        .error (.inFunction name (.division division)) := by
  have numbered : dividesBehindReturn.Numbered := ⟨by decide, by decide⟩
  have braced : ∀ f, some f ∈ dividesBehindReturn.entries → f.body.Braced := by
    intro f member
    cases mem_singleton.mp member
    simp [Stmt.Braced, Stmt.BracedList]
  have fails : dividesBehindReturn.fold =
      .error ⟨[102], .divisionByZero ⟨.div, 6, 0, 10⟩⟩ := rfl
  have compiles := (compile_isOk_iff [] {} dividesBehindReturn default).mpr
    ((output?_isSome_iff rfl rfl numbered).mpr ⟨dividesBehindReturn_compilable, .inr rfl⟩)
  obtain ⟨compiled, succeeded⟩ := compiles
  refine ⟨⟨compiled, succeeded⟩, ?_⟩
  obtain ⟨folded, succeeds⟩ | divides :=
    folding_adds_only_divisions (o := {}) numbered braced rfl succeeded []
  · rw [compile_fold_error (o := {}) fails] at succeeds
    cases succeeds
  · exact divides

end Pipeline

end MiddleEnd
