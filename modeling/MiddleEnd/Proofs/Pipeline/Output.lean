import MiddleEnd.Proofs.Lowering.Agreement
import MiddleEnd.Proofs.Pipeline.Simplification
import MiddleEnd.Proofs.Pipeline.Unread

/-!
The output of a compilation, stage by stage. It depends on nothing of a module but what a file shows
of it.
-/

namespace MiddleEnd.Pipeline

open Option

variable {m m' : Module} {o o' : Options}

/-- The code if nothing is wrong with it. -/
def valid? (code : Ir.Module) : Option Ir.Module :=
  if code.faults.isEmpty then some code else none

theorem verify_bind (code : Ir.Module) (rest : Ir.Module → Option α) :
    (verify code).toOption.bind (fun _ => rest code) = (valid? code).bind rest := by
  unfold verify valid?
  cases code.faults <;> rfl

theorem simplified_toOption (code : Ir.Module) :
    (simplified code).toOption = valid? (code.mapFuncs simplifyFunc) := by
  have whole := verify_bind (code.mapFuncs simplifyFunc) some
  rw [bind_fun_some] at whole
  rw [← whole, simplified, toOption_bind, toOption_mapError, toOption_mapError]
  rfl

/-- The text that the stages make of a module. -/
def output? (o : Options) (m : Module) : Option Text :=
  (if o.fold then m.fold.toOption else some m).bind fun m =>
  (Scoping.Table.ofModule m).toOption.bind fun table =>
  (Lowering.module o.canceled m table).result.toOption.bind fun lowered =>
  (valid? lowered).bind fun lowered =>
  (if o.simplify then valid? (lowered.mapFuncs simplifyFunc) else some lowered).bind fun code =>
  (render o.emitMode m code).toOption

theorem staged_output (o : Options) (m : Module) :
    (staged o m).toOption.map Product.output = output? o m := by
  have folded : (if o.fold then m.fold.mapError Failure.ofModuleFold else .ok m).toOption =
      if o.fold then m.fold.toOption else some m := by
    split
    · exact toOption_mapError _ _
    · rfl
  have tidied (code : Ir.Module) : (if o.simplify then simplified code else .ok code).toOption =
      if o.simplify then valid? (code.mapFuncs simplifyFunc) else some code := by
    split
    · exact simplified_toOption code
    · rfl
  simp only [staged, output?, toOption_bind, toOption_mapError, map_bind, Function.comp_def, folded]
  refine bind_congr fun m _ => bind_congr fun table accepted => ?_
  rw [o.lowered_toOption (toOption_eq_some.mp accepted)]
  refine bind_congr fun code _ => ?_
  rw [← verify_bind]
  refine bind_congr fun _ _ => ?_
  rw [tidied]
  refine bind_congr fun code _ => ?_
  cases render o.emitMode m code <;> rfl

theorem produced_output (o : Options) (m : Module) (files : FileTree) :
    (produced o m files).result.toOption.map Compiled.output = output? o m := by
  rw [produced_result, ← staged_output]
  cases staged o m <;> rfl

/-! Modules that a file shows alike. -/

theorem lowered_supported (accepted : Scoping.Table.ofModule m = .ok table)
    (succeeded : (Lowering.module false m table).result = .ok lowered) : m.Supported := by
  obtain ⟨supported, -⟩ | ⟨-, f, u, -, failed⟩ := Lowering.module_decides accepted
  · exact supported
  · cases succeeded.symm.trans failed

theorem output?_of_alike (fold : o'.fold = o.fold) (simplify : o'.simplify = o.simplify)
    (emit : o'.emitMode = o.emitMode) (running : o.canceled = false)
    (running' : o'.canceled = false) (alike : m.plain Ty.shown = m'.plain Ty.shown)
    (made : output? o m = some output) : output? o' m' = some output := by
  unfold output? at made ⊢
  obtain ⟨folded, didFold, made⟩ := bind_eq_some_iff.mp made
  obtain ⟨table, checked, made⟩ := bind_eq_some_iff.mp made
  obtain ⟨lowered, didLower, made⟩ := bind_eq_some_iff.mp made
  rw [running] at didLower
  have supported := lowered_supported (toOption_eq_some.mp checked) (toOption_eq_some.mp didLower)
  obtain ⟨folded', didFold', alikeFolded⟩ :
      ∃ folded', (if o'.fold then m'.fold.toOption else some m') = some folded' ∧
        folded.plain Ty.shown = folded'.plain Ty.shown := by
    rw [fold]
    split at didFold
    · next folds =>
      obtain ⟨folded', equation, same⟩ :=
        Module.fold_alike Ty.shown alike (toOption_eq_some.mp didFold)
      exact ⟨folded', by rw [if_pos folds, equation]; rfl, same⟩
    · next keeps =>
      cases didFold
      exact ⟨m', by rw [if_neg keeps], alike⟩
  -- What is lowered is supported, so nothing that is read differs behind folding.
  have same := supported.plain_eq alikeFolded
  have printed : folded'.print = folded.print := by
    rw [← folded'.print_plain, ← same, folded.print_plain]
  rw [← Scoping.Table.ofModule_plain, same, Scoping.Table.ofModule_plain] at checked
  rw [← Lowering.module_plain, same, Lowering.module_plain] at didLower
  have rendered : render o.emitMode folded' = render o.emitMode folded := by
    unfold render
    rw [printed]
  rw [didFold', bind_some, checked, bind_some, running', didLower, bind_some,
    simplify, emit, rendered]
  exact made

theorem output?_alike (fold : o'.fold = o.fold) (simplify : o'.simplify = o.simplify)
    (emit : o'.emitMode = o.emitMode) (running : o.canceled = false)
    (running' : o'.canceled = false) (alike : m.plain Ty.shown = m'.plain Ty.shown) :
    output? o' m' = output? o m := by
  apply Option.ext
  intro output
  exact ⟨output?_of_alike fold.symm simplify.symm emit.symm running' running alike.symm,
    output?_of_alike fold simplify emit running running' alike⟩

end MiddleEnd.Pipeline
