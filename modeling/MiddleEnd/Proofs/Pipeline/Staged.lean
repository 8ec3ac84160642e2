import MiddleEnd.Pipeline.Compile
import MiddleEnd.Proofs.Lowering.Crew

/-!
What the stages of a compilation come to. It does not depend on what is told and recorded on the
way, and of the turns that functions have side by side only the choice between failures does.
-/

namespace MiddleEnd.Pipeline

open Lowering
open Trace (TraceM Recorder)

variable {α β : Type}

/-- Whatever was recorded before, the steps come to this. -/
def Gives (x : TraceM α) (a : α) : Prop := ∀ r, (x.run r).1 = a

section Gives

variable {x : TraceM α} {f : α → TraceM β}

theorem Gives.bind (first : Gives x a) (rest : Gives (f a) b) : Gives (x >>= f) b := by
  intro r
  change ((f (x.run r).1).run (x.run r).2).1 = b
  rw [first r]
  exact rest _

theorem Gives.behind (rest : ∀ a, Gives (f a) b) : Gives (x >>= f) b :=
  fun r => rest (x.run r).1 (x.run r).2

theorem gives_pure (a : α) : Gives (pure a) a := fun _ => rfl

end Gives

theorem gives_foldModule (ctx : Trace.Context) (m : Module) : Gives (foldModule ctx m) m.fold :=
  .behind fun _ => .behind fun _ => .behind fun _ => gives_pure _

theorem gives_lowerInOrder (ctx : Trace.Context) (module : NodeId) (table : Scoping.Table)
    (entries : List (Option Func)) :
    Gives (lowerInOrder ctx module table entries)
      (Lowering.collect (attempts module table entries).1) := by
  induction entries generalizing table with
  | nil => exact gives_pure _
  | cons entry rest ih =>
    cases entry with
    | none => exact gives_pure _
    | some f =>
      simp only [lowerInOrder, attempts]
      refine .behind fun _ => .behind fun _ => ?_
      cases func module table f with
      | mk outcome table =>
        cases outcome with
        | error e => exact gives_pure _
        | ok g => exact (ih table).bind (gives_pure _)

theorem gives_lowerInTurns (ctx : Trace.Context) (m : Module) (crew : Crew)
    (spans : List (Nat × Trace.Span)) (turns : List Nat) :
    Gives (lowerInTurns ctx m crew spans turns) (crew.after m turns) := by
  induction turns generalizing crew spans with
  | nil => exact gives_pure _
  | cons i rest ih =>
    have whole : crew.after m (i :: rest) = (crew.step m i).2.after m rest := rfl
    rw [whole, lowerInTurns]
    split
    · next stepped => exact stepped ▸ ih _ _
    · next stepped => exact stepped ▸ .behind fun _ => ih _ _
    · next stepped => exact stepped ▸ .behind fun _ => ih _ _

/-- What lowering comes to, in order or in turns. -/
def Options.lowered (o : Options) (m : Module) (table : Scoping.Table) :
    Except LowerFailure Ir.Module :=
  if o.canceled && !m.entries.isEmpty then .error .canceled
  else match o.schedule? m with
    | none => (Lowering.collect (attempts m.id table m.entries).1).map Ir.Module.ofFuncs
    | some first =>
      (Crew.after m { table := table } (turns first m.entries.length)).result
        m.entries.length

theorem gives_lowerModule (o : Options) (ctx : Trace.Context) (m : Module)
    (table : Scoping.Table) :
    Gives (lowerModule ctx o.canceled (o.schedule? m) m table) (o.lowered m table) := by
  refine .behind fun started =>
    Gives.bind (a := o.lowered m table) ?_ (.behind fun _ => gives_pure _)
  unfold lowerFuncs Options.lowered
  split
  · exact gives_pure _
  · cases o.schedule? m with
    | none => exact Gives.bind (gives_lowerInOrder _ _ _ _) (gives_pure _)
    | some first => exact Gives.bind (gives_lowerInTurns _ _ _ _ _) (gives_pure _)

theorem Options.lowered_toOption (o : Options) {m : Module}
    (accepted : Scoping.Table.ofModule m = .ok table) :
    (o.lowered m table).toOption = (module o.canceled m table).result.toOption := by
  unfold lowered module
  split
  · rfl
  · split
    · rfl
    · next first _ =>
      change _ = (module false m table).result.toOption
      obtain ⟨lowered, same, plain⟩ | ⟨f, cause, -, -, same, e, plain⟩ :=
        Crew.result_decides accepted first
      · rw [same, plain]
      · rw [same, plain]
        rfl

/-- Whatever was told before, the steps come to this. -/
def Yields (x : PipelineM α) (result : Except Failure α) : Prop :=
  ∀ log r, ((x.run.run log).run r).1.1 = result

section Yields

variable {x : PipelineM α} {result : Except Failure α}

theorem Yields.bind {f : α → PipelineM β} {rest : α → Except Failure β} (first : Yields x result)
    (onward : ∀ a, Yields (f a) (rest a)) : Yields (x >>= f) (result >>= rest) := by
  intro log r
  rw [ExceptT.run_bind, StateT.run_bind, StateT.run_bind, ← first log r]
  obtain ⟨⟨outcome, log'⟩, r'⟩ := (x.run.run log).run r
  cases outcome with
  | ok a => exact onward a log' r'
  | error e => rfl

theorem Yields.told {change : Log → Log} (yields : Yields x result) :
    Yields (modify change >>= fun _ => x) result :=
  fun log r => yields (change log) r

theorem Yields.traced {y : TraceM β} {f : β → PipelineM α} (gives : Gives y b)
    (yields : Yields (f b) result) : Yields (liftM y >>= f) result := by
  intro log r
  have same := gives r
  change (((f (y.run r).1).run.run log).run (y.run r).2).1.1 = result
  rw [same]
  exact yields log _

theorem yields_pure (a : α) : Yields (pure a) (.ok a) :=
  fun _ _ => rfl

theorem yields_timed (name : Text) (note : α → Text) (outcome : Except Failure α) :
    Yields (timed name note outcome) outcome := by
  cases outcome with
  | ok a => exact (yields_pure a).told
  | error e => exact Yields.told fun _ _ => rfl

end Yields

theorem yields_validate (ctx : Trace.Context) (code : Ir.Module) :
    Yields (validate ctx code) ((verify code).mapError .validation) :=
  .traced (.behind fun _ => .behind fun _ => gives_pure _) (yields_timed _ _ _)

theorem run_tryCatch (x : PipelineM α) (context : Failure → Failure) (log : Log) :
    (tryCatch x fun e => throw (context e) : PipelineM α).run.run log =
      x.run.run log >>= fun ended => pure (ended.1.mapError context, ended.2) := by
  simp only [tryCatch, tryCatchThe, MonadExceptOf.tryCatch, ExceptT.tryCatch, ExceptT.run_mk,
    StateT.run_bind]
  refine congrArg _ (funext fun ended => ?_)
  obtain ⟨outcome, log'⟩ := ended
  cases outcome <;> rfl

theorem Yields.tryCatch {x : PipelineM α} (yields : Yields x result) (context : Failure → Failure) :
    Yields (MonadExcept.tryCatch x fun e => throw (context e)) (result.mapError context) := by
  intro log r
  rw [run_tryCatch, ← yields log r]
  rfl

def simplified (code : Ir.Module) : Except Failure Ir.Module := do
  let tidy := code.mapFuncs simplifyFunc
  let _ ← ((verify tidy).mapError .validation).mapError (.context "after simplify: ")
  .ok tidy

/-- The stages one behind the other, and nothing but them. -/
def staged (o : Options) (m : Module) : Except Failure Product := do
  let m ← (if o.fold then m.fold.mapError .ofModuleFold else .ok m)
  let table ← (Scoping.Table.ofModule m).mapError .ofCheck
  let code ← (o.lowered m table).mapError .ofModuleLower
  let _ ← (verify code).mapError .validation
  let code ← (if o.simplify then simplified code else .ok code)
  let output ← render o.emitMode m code
  .ok ⟨m, code, output⟩

theorem yields_foldStage (ctx : Trace.Context) (m : Module) :
    Yields (foldStage ctx m) (m.fold.mapError .ofModuleFold) :=
  .told (.traced (gives_foldModule ctx m) (yields_timed _ _ _))

theorem yields_checkStage (m : Module) :
    Yields (checkStage m) ((Scoping.Table.ofModule m).mapError .ofCheck) :=
  .told (yields_timed _ _ _)

theorem yields_lowerStage (o : Options) (m : Module) (table : Scoping.Table) :
    Yields (lowerStage o m table) ((o.lowered m table).mapError .ofModuleLower) :=
  .told (.traced (gives_lowerModule o _ m table) (yields_timed _ _ _))

theorem yields_simplifyStage (ctx : Trace.Context) (code : Ir.Module) :
    Yields (simplifyStage ctx code) (simplified code) := by
  refine .told (.traced (.behind fun _ => .behind fun _ => gives_pure _) (.told ?_))
  exact ((yields_validate _ _).tryCatch _).bind fun _ => yields_pure _

theorem yields_produce (o : Options) (m : Module) : Yields (produce o m) (staged o m) := by
  refine Yields.bind ?_ fun m => (yields_checkStage m).bind fun table =>
    (yields_lowerStage o m table).bind fun code => .told ((yields_validate _ code).bind fun _ =>
      Yields.bind ?_ fun code => .told ((yields_timed _ _ _).bind fun _ => yields_pure _))
  · split
    · exact yields_foldStage _ _
    · exact yields_pure _
  · split
    · exact yields_simplifyStage _ _
    · exact yields_pure _

theorem produced_result (o : Options) (m : Module) (files : FileTree) :
    (produced o m files).result = (staged o m).map fun p =>
      { module := p.module, code := some p.code, output := p.output } := by
  rw [← yields_produce o m {} o.recorder]
  rfl

/-- They differ in nothing but what is told and recorded. -/
structure Outcome.Same (a b : Outcome) : Prop where
  result : a.result = b.result
  files : a.files = b.files

theorem Outcome.Same.keep {a b : Outcome} (same : a.Same b) (version : Text) (o : Options)
    (m : Module) (cache : Cache) (key : Digest) (warnings : List Failure) :
    (a.keep version o m cache key warnings).Same (b.keep version o m cache key warnings) := by
  unfold Outcome.keep
  rw [same.result, same.files]
  split
  · exact same
  · simp only
    split
    · exact ⟨rfl, rfl⟩
    · exact ⟨rfl, rfl⟩

/-- A compilation but for its span. -/
def bare (version : Text) (o : Options) (cache : Option Cache) (m : Module) (files : FileTree) :
    Outcome :=
  match cache with
  | none => produced o m files
  | some cache => throughCache version o m cache files

theorem produced_same (o : Options) (recorder : Recorder) (span : Trace.Context) (m : Module)
    (files : FileTree) :
    (produced { o with recorder, span } m files).Same (produced o m files) := by
  refine ⟨?_, rfl⟩
  rw [produced_result, produced_result]
  rfl

theorem bare_same (version : Text) (o : Options) (recorder : Recorder) (span : Trace.Context)
    (cache : Option Cache) (m : Module) (files : FileTree) :
    (bare version { o with recorder, span } cache m files).Same
      (bare version o cache m files) := by
  have made := produced_same o recorder span m files
  cases cache with
  | none => exact made
  | some cache =>
    have keyed : Cache.key version { o with recorder, span } m = Cache.key version o m := rfl
    simp only [bare, throughCache, keyed]
    split
    · exact ⟨rfl, rfl⟩
    · split
      · exact ⟨rfl, rfl⟩
      · exact made.keep ..
      · exact made.keep ..

theorem compile_same (version : Text) (o : Options) (cache : Option Cache) (m : Module)
    (files : FileTree) :
    (compile version o cache (some m) files).Same (bare version o cache m files) := by
  have inner := bare_same version o
    ((Trace.start o.span .module ("compile " ++ m.name)).run o.recorder).2
    ((Trace.start o.span .module ("compile " ++ m.name)).run o.recorder).1.1 cache m files
  exact ⟨inner.result, inner.files⟩

theorem compileFile_same (info : BuildInfo) (o : Options) (recorder : Recorder)
    (span : Trace.Context) (cache : Option Cache) (path : Text) (files : FileTree) :
    (compileFile info { o with recorder, span } cache path files).Same
      (compileFile info o cache path files) := by
  unfold compileFile
  simp only
  split
  · exact ⟨rfl, rfl⟩
  · next source _ =>
    have first := compile_same info.version { o with recorder, span } cache source.module files
    have second := compile_same info.version o cache source.module files
    have between := bare_same info.version o recorder span cache source.module files
    refine ⟨?_, ?_⟩
    · simp only [first.result, second.result, between.result]
    · simp only [first.files, second.files, between.files]

end MiddleEnd.Pipeline
