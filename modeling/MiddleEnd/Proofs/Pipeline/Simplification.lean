import MiddleEnd.Proofs.Lowering.Soundness
import MiddleEnd.Proofs.Pipeline.Staged

/-!
Code that was lowered and validated stays valid when it is simplified, so that a compilation never
fails at the validation behind simplification.
-/

namespace MiddleEnd

open Lowering

namespace Pipeline

theorem simplifyFunc_valid (valid : f.faults = []) (orderly : f.Orderly) :
    ∃ g, f.forwardStores? = some g ∧ simplifyFunc f = g.simplify ∧
      (simplifyFunc f).faults = [] := by
  have typed := (f.faults_eq_nil_iff.mp valid).wellTyped orderly.reads
  obtain ⟨g, forwarded, typed'⟩ := typed.forwardStores
  have same : simplifyFunc f = g.simplify := by
    rw [simplifyFunc, forwarded]
    rfl
  refine ⟨g, forwarded, same, ?_⟩
  rw [same, Ir.Func.faults_eq_nil_iff]
  exact typed'.simplify.valid

variable {m : Module} {version : Text} {o : Options} {e : Failure}

theorem simplified_valid {table : Scoping.Table}
    (succeeded : (module canceled m table).result = .ok lowered)
    (valid : lowered.faults = []) :
    (∀ f, some f ∈ lowered.funcs → ∃ g, f.forwardStores? = some g ∧
      simplifyFunc f = g.simplify) ∧
    (lowered.mapFuncs simplifyFunc).faults = [] := by
  have each : ∀ f, some f ∈ lowered.funcs → ∃ g, f.forwardStores? = some g ∧
      simplifyFunc f = g.simplify ∧ (simplifyFunc f).faults = [] := fun f member =>
    simplifyFunc_valid (Ir.Module.faults_eq_nil.mp valid f member)
      (module_orderly succeeded member)
  constructor
  · intro f member
    obtain ⟨g, forwarded, same, -⟩ := each f member
    exact ⟨g, forwarded, same⟩
  · refine Ir.Module.faults_eq_nil.mpr fun f' member => ?_
    obtain ⟨entry, inLowered, isSome⟩ := List.mem_map.mp member
    obtain ⟨f, rfl, rfl⟩ := Option.map_eq_some_iff.mp isSome
    obtain ⟨g, -, -, faultless⟩ := each f inLowered
    exact faultless

/-- A failure that does not come from the validation behind simplification. -/
def BeforeSimplify (e : Failure) : Prop :=
  ∀ cause, e ≠ .context "after simplify: " cause

theorem beforeSimplify_context (other : before.head? ≠ some 97) (cause : Failure) :
    BeforeSimplify (.context before cause) := by
  intro cause' same
  injection same with same
  rw [same] at other
  exact other rfl

theorem beforeSimplify_inFunction (name : Text) (cause : Failure) :
    BeforeSimplify (.inFunction name cause) :=
  have first : (Text.concat ["function ", name, ": "]).head? = some 102 := rfl
  beforeSimplify_context (by rw [first]; decide) cause

theorem beforeSimplify_ofScope (e : Scoping.ScopeError) : BeforeSimplify (.ofScope e) := by
  intro cause same
  cases e <;> cases same

theorem beforeSimplify_ofCheck (e : Scoping.CheckFailure) : BeforeSimplify (.ofCheck e) := by
  cases e with
  | missingModule | missingFunction | problems => exact fun _ same => nomatch same
  | scope e => exact beforeSimplify_ofScope e
  | inFunction e => exact beforeSimplify_inFunction _ _
  | inconsistent faults => exact beforeSimplify_context (by decide) _

theorem beforeSimplify_ofModuleLower (e : LowerFailure) :
    BeforeSimplify (.ofModuleLower e) := by
  cases e with
  | missingModule | missingTable | missingFunction | canceled => exact fun _ same => nomatch same
  | inFunction e => exact beforeSimplify_inFunction _ _

theorem verify_delivers (code : Ir.Module) :
    Delivers (verify code) (fun _ => code.faults = []) fun _ => code.faults ≠ [] := by
  unfold verify
  split
  · next faultless => exact faultless
  · next faulty => exact faulty

theorem simplified_delivers (valid : (code.mapFuncs simplifyFunc).faults = []) :
    Delivers (simplified code) (fun _ => True) BeforeSimplify := by
  have verified := verify_delivers (code.mapFuncs simplifyFunc)
  refine Delivers.bind ?_ fun _ (_ : True) => trivial
  cases outcome : verify (code.mapFuncs simplifyFunc) with
  | ok u => trivial
  | error e =>
    rw [outcome] at verified
    exact absurd valid verified

theorem render_delivers (emit : Text) (m : Module) (code : Ir.Module) :
    Delivers (render emit m code) (fun _ => True) BeforeSimplify := by
  unfold render
  split
  · trivial
  · split
    · trivial
    · exact fun _ same => nomatch same

theorem staged_delivers (o : Options) (m : Module) :
    Delivers (staged o m) (fun _ => True) BeforeSimplify := by
  refine Delivers.bind ?_ fun m (_ : True) => ?_
  · split
    · cases m.fold with
      | ok folded => trivial
      | error e => exact beforeSimplify_inFunction _ _
    · trivial
  refine ((delivers_self _).mapError fun e _ => beforeSimplify_ofCheck e).bind
    fun table accepted => ?_
  refine ((delivers_self _).mapError fun e _ => beforeSimplify_ofModuleLower e).bind
    fun code lowered => ?_
  refine ((verify_delivers code).mapError fun e _ _ same => nomatch same).bind fun _ valid => ?_
  have succeeded : (module o.canceled m table).result = .ok code := by
    rw [← toOption_eq_some, ← o.lowered_toOption accepted, lowered, toOption_ok]
  refine Delivers.bind ?_ fun code (_ : True) =>
    (render_delivers o.emitMode m code).bind fun _ _ => trivial
  split
  · exact simplified_delivers (simplified_valid succeeded valid).2
  · trivial

theorem produced_beforeSimplify {o : Options} {m : Module} {files : FileTree} {e : Failure}
    (failed : (produced o m files).result = .error e) : BeforeSimplify e := by
  have delivers := staged_delivers o m
  rw [produced_result] at failed
  cases result : staged o m with
  | ok p =>
    rw [result] at failed
    cases failed
  | error cause =>
    rw [result] at failed delivers
    cases failed
    exact delivers

theorem keep_eq_error {outcome : Outcome}
    (failed : (outcome.keep version o m cache key warnings).result = .error e) :
    outcome.result = .error e := by
  unfold Outcome.keep at failed
  split at failed
  · exact failed
  · simp only at failed
    split at failed <;> cases failed

theorem throughCache_beforeSimplify
    (failed : (throughCache version o m cache files).result = .error e) : BeforeSimplify e := by
  unfold throughCache at failed
  split at failed
  · cases failed
    exact beforeSimplify_context (by decide) _
  · split at failed
    · cases failed
    · exact produced_beforeSimplify (keep_eq_error failed)
    · exact produced_beforeSimplify (keep_eq_error failed)

theorem compile_beforeSimplify {m : Option Module}
    (failed : (compile version o cache m files).result = .error e) : BeforeSimplify e := by
  cases m with
  | none =>
    cases failed
    exact fun _ same => nomatch same
  | some m =>
    rw [(compile_same version o cache m files).result] at failed
    cases cache with
    | none => exact @produced_beforeSimplify o m files e failed
    | some cache => exact throughCache_beforeSimplify failed

end Pipeline

/-- Code that was lowered against whatever table and validated stays valid when it is simplified. So
a compilation never fails at the validation behind simplification. -/
theorem simplification_stays_valid :
    (∀ (canceled : Bool) (m : Module) (table : Scoping.Table) (lowered : Ir.Module),
      (module canceled m table).result = .ok lowered → lowered.faults = [] →
        (∀ f, some f ∈ lowered.funcs → ∃ g, f.forwardStores? = some g ∧
          Pipeline.simplifyFunc f = g.simplify) ∧
        (lowered.mapFuncs Pipeline.simplifyFunc).faults = []) ∧
    ∀ (version : Text) (o : Pipeline.Options) (cache : Option Pipeline.Cache) (m : Option Module)
      (files : FileTree) (cause : Failure),
      (Pipeline.compile version o cache m files).result ≠
        .error (.context "after simplify: " cause) := by
  refine ⟨fun canceled m table lowered => Pipeline.simplified_valid, ?_⟩
  intro version o cache m files cause failed
  exact Pipeline.compile_beforeSimplify failed cause rfl

theorem countFromAnywhere_simplification :
    ∃ lowered, (module false countFromAnywhere .empty).result = .ok lowered ∧
      lowered.faults = [] ∧ (lowered.mapFuncs Pipeline.simplifyFunc).faults = [] ∧
      lowered.mapFuncs Pipeline.simplifyFunc ≠ lowered := by
  have runs : (module false countFromAnywhere .empty).result.toOption.any (fun lowered =>
      decide (lowered.faults = [] ∧ lowered.mapFuncs Pipeline.simplifyFunc ≠ lowered)) = true := by
    decide +kernel
  cases result : (module false countFromAnywhere .empty).result with
  | error failure =>
    rw [result] at runs
    cases runs
  | ok lowered =>
    rw [result] at runs
    obtain ⟨valid, changed⟩ := of_decide_eq_true runs
    exact ⟨lowered, rfl, valid, (simplification_stays_valid.1 _ _ _ _ result valid).2, changed⟩

end MiddleEnd
