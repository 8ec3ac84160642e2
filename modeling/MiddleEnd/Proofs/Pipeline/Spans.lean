import MiddleEnd.Proofs.Pipeline.Staged
import MiddleEnd.Proofs.Trace.Bracketing

/-!
The spans of a compilation. On every way through its stages those that begin also end.
-/

namespace MiddleEnd.Trace

variable {α β : Type} {events : List Event} {ctx : Context}

open Pipeline

theorem foldModule_brackets (ctx : Context) (m : Module) : Brackets ctx (foldModule ctx m) :=
  .span (fun _ => []) (fun _ _ => rfl) (fun _ => .forM fun _ => .point _ _ _ _) fun _ => .pure ctx _

theorem lowerInOrder_brackets (ctx : Context) (module : NodeId) (table : Scoping.Table)
    (entries : List (Option Func)) : Brackets ctx (lowerInOrder ctx module table entries) := by
  induction entries generalizing table with
  | nil => exact .pure ctx _
  | cons entry rest ih =>
    cases entry with
    | none => exact .pure ctx _
    | some f =>
      unfold lowerInOrder
      cases Lowering.func module table f with
      | mk outcome table =>
        refine .emptySpan (funcNotes outcome) (fun _ _ => rfl) ?_
        cases outcome with
        | error e => exact .pure ctx _
        | ok g => exact (ih table).bind fun _ => .pure ctx _

theorem lowerModule_brackets (ctx : Context) (canceled : Bool) (m : Module)
    (table : Scoping.Table) : Brackets ctx (lowerModule ctx canceled none m table) := by
  refine .span _ (fun _ _ => rfl) (fun ctx => ?_) fun _ => .pure ctx _
  unfold lowerFuncs
  split
  · exact .pure ctx _
  · exact (lowerInOrder_brackets ctx m.id table m.entries).bind fun _ => .pure ctx _

theorem validateModule_brackets (ctx : Context) (code : Ir.Module) :
    Brackets ctx (validateModule ctx code) :=
  .emptySpan _ (fun _ _ => rfl) (.pure ctx _)

theorem simplifyModule_brackets (ctx : Context) (code : Ir.Module) :
    Brackets ctx (simplifyModule ctx code) :=
  .emptySpan _ (fun _ _ => rfl) (.pure ctx _)

/-- Whatever was told before, and whether they fail or not, the steps show nothing but brackets. -/
def StepsBracket (ctx : Context) (x : PipelineM α) : Prop :=
  ∀ log, Brackets ctx (x.run.run log)

namespace StepsBracket

variable {x : PipelineM α}

theorem bind {f : α → PipelineM β} (first : StepsBracket ctx x)
    (rest : ∀ a, StepsBracket ctx (f a)) : StepsBracket ctx (x >>= f) := by
  intro log
  rw [ExceptT.run_bind, StateT.run_bind]
  refine Brackets.bind (first log) fun ended => ?_
  obtain ⟨outcome, log⟩ := ended
  cases outcome with
  | ok a => exact rest a log
  | error e => exact .pure ctx _

theorem pure (ctx : Context) (a : α) : StepsBracket ctx (Pure.pure a) :=
  fun _ => .pure ctx _

theorem told (ctx : Context) (change : Log → Log) : StepsBracket ctx (modify change) :=
  fun _ => .pure ctx _

theorem traced {y : TraceM α} (brackets : Brackets ctx y) : StepsBracket ctx (liftM y) := by
  intro log
  have lifted : (liftM y : PipelineM α).run.run log = y >>= fun a => Pure.pure (.ok a, log) := rfl
  rw [lifted]
  exact brackets.bind fun _ => .pure ctx _

theorem timed (ctx : Context) (name : Text) (note : α → Text) (outcome : Except Failure α) :
    StepsBracket ctx (Pipeline.timed name note outcome) := by
  cases outcome with
  | ok a => exact (told ctx _).bind fun _ => .pure ctx a
  | error e => exact (told ctx _).bind fun _ _ => .pure ctx _

theorem tryCatch (steps : StepsBracket ctx x) (context : Failure → Failure) :
    StepsBracket ctx (MonadExcept.tryCatch x fun e => throw (context e)) := by
  intro log
  rw [run_tryCatch]
  exact (steps log).bind fun _ => .pure ctx _

end StepsBracket

theorem validate_brackets (ctx : Context) (code : Ir.Module) :
    StepsBracket ctx (validate ctx code) :=
  (StepsBracket.traced (validateModule_brackets ctx code)).bind fun _ => .timed ctx _ _ _

theorem simplifyStage_brackets (ctx : Context) (code : Ir.Module) :
    StepsBracket ctx (simplifyStage ctx code) :=
  (StepsBracket.told ctx _).bind fun _ =>
    (StepsBracket.traced (simplifyModule_brackets ctx code)).bind fun tidy =>
    (StepsBracket.told ctx _).bind fun _ =>
    ((validate_brackets ctx tidy).tryCatch _).bind fun _ => .pure ctx _

theorem produce_brackets {o : Options} (alone : o.jobs ≤ 1) (m : Module) :
    StepsBracket o.span (produce o m) := by
  have sequential (m : Module) : o.schedule? m = none := by
    simp [Options.schedule?, Int.not_lt.mpr alone]
  refine StepsBracket.bind ?_ fun m => StepsBracket.bind ?_ fun table => StepsBracket.bind ?_
    fun code => (StepsBracket.told _ _).bind fun _ => (validate_brackets _ code).bind fun _ =>
    StepsBracket.bind ?_ fun code => (StepsBracket.told _ _).bind fun _ =>
    (StepsBracket.timed _ _ _ _).bind fun _ => .pure _ _
  · split
    · exact (StepsBracket.told _ _).bind fun _ =>
        (StepsBracket.traced (foldModule_brackets _ m)).bind fun _ => .timed _ _ _ _
    · exact .pure _ m
  · exact (StepsBracket.told _ _).bind fun _ => .timed _ _ _ _
  · unfold lowerStage
    rw [sequential m]
    exact (StepsBracket.told _ _).bind fun _ =>
      (StepsBracket.traced (lowerModule_brackets _ _ m table)).bind fun _ => .timed _ _ _ _
  · split
    · exact simplifyStage_brackets _ code
    · exact .pure _ code

/-- A compilation inside its span. -/
def compiling (version : Text) (o : Options) (cache : Option Cache) (m : Module) (files : FileTree)
    (ctx : Context) : TraceM (Except Failure Compiled) := fun r =>
  let outcome := bare version { o with recorder := r, span := ctx } cache m files
  (outcome.result, outcome.recorder)

def failureNotes : Except Failure Compiled → Notes
  | .ok _ => []
  | .error e => [("error", e.message)]

theorem compile_eq_inSpan (version : Text) (o : Options) (cache : Option Cache) (m : Module)
    (files : FileTree) :
    (inSpan o.span .module ("compile " ++ m.name) (compiling version o cache m files)
        failureNotes).run o.recorder =
      ((compile version o cache (some m) files).result,
        (compile version o cache (some m) files).recorder) := by
  cases cache <;> rfl

theorem keep_recorder (outcome : Pipeline.Outcome) (version : Text) (o : Options) (m : Module)
    (cache : Cache) (key : Digest) (warnings : List Failure) :
    (outcome.keep version o m cache key warnings).recorder = outcome.recorder := by
  unfold Outcome.keep
  split
  · rfl
  · simp only
    split <;> rfl

section Compiling

variable {version : Text} {o : Options} {m : Module} {files : FileTree}

theorem produced_brackets (alone : o.jobs ≤ 1) (ctx : Context) :
    Brackets ctx (compiling version o none m files ctx) :=
  (produce_brackets (o := { o with span := ctx }) alone m {}).map
    (fun ended => ended.1.map fun p => ⟨p.module, some p.code, p.output, false, []⟩) fun _ => rfl

theorem kept_brackets {cache : Cache} (key : Digest) (warnings : List Failure)
    (produced : Brackets ctx (compiling version o none m files ctx))
    (kept : ∀ r, throughCache version { o with recorder := r, span := ctx } m cache files =
      (Pipeline.produced { o with recorder := r, span := ctx } m files).keep version o m cache key
        warnings) :
    Brackets ctx (compiling version o (some cache) m files ctx) := by
  refine produced.map (fun result => (Pipeline.Outcome.keep
    { result, recorder := default, files } version o m cache key warnings).result) fun r => ?_
  have same : (Pipeline.produced { o with recorder := r, span := ctx } m files).Same
      { result := ((compiling version o none m files ctx).run r).1, recorder := default, files } :=
    ⟨rfl, rfl⟩
  change ((throughCache ..).result, (throughCache ..).recorder) = _
  rw [kept, keep_recorder, (same.keep ..).result]
  rfl

theorem compiling_brackets (alone : o.jobs ≤ 1) (cache : Option Cache) (ctx : Context) :
    Brackets ctx (compiling version o cache m files ctx) := by
  have produced := @produced_brackets version o m files alone ctx
  cases cache with
  | none => exact produced
  | some cache =>
    have key (r : Recorder) : Cache.key version { o with recorder := r, span := ctx } m =
        Cache.key version o m := rfl
    cases keyed : Cache.key version o m with
    | error e =>
      refine (Brackets.pure ctx ()).map
        (fun _ => .error (.context "driver: cache key: " (.ofEncode e))) fun r => ?_
      simp only [StateT.run, compiling, bare, throughCache, key, keyed]
      rfl
    | ok k =>
      cases found : cache.get files k with
      | error e =>
        refine kept_brackets k [e] produced fun r => ?_
        simp only [throughCache, key, keyed, found]
        rfl
      | ok entry? =>
        cases entry? with
        | none =>
          refine kept_brackets k [] produced fun r => ?_
          simp only [throughCache, key, keyed, found]
          rfl
        | some entry =>
          refine (Brackets.point ctx .module "cache.hit" (k.hex.take 12)).map
            (fun _ => .ok ⟨m, none, entry.output, true, []⟩) fun r => ?_
          simp only [StateT.run, compiling, bare, throughCache, key, keyed, found]
          rfl

end Compiling

theorem compile_emits (version : Text) {o : Options} (cache : Option Cache) (m : Module)
    (files : FileTree) (alone : o.jobs ≤ 1) :
    ∃ events,
      Emits o.recorder (inSpan o.span .module ("compile " ++ m.name)
        (compiling version o cache m files) failureNotes)
        (compile version o cache (some m) files).result events ∧
      Bracketed o.span events ∧
      (o.recorder.records .module = true → Enclosed .module ("compile " ++ m.name)
        (match (compile version o cache (some m) files).result with
          | .ok _ => none
          | .error e => some [("error", e.message)]) events) := by
  obtain ⟨a, events, emits, nested, enclosed⟩ :=
    inSpan_brackets (@compiling_brackets version o m files alone cache) o.span
      .module ("compile " ++ m.name) failureNotes o.recorder
  have whole := compile_eq_inSpan version o cache m files
  have same : a = (compile version o cache (some m) files).result :=
    congrArg Prod.fst ((emits.handed o.recorder.tracer rfl).symm.trans whole)
  subst same
  refine ⟨events, emits, nested, fun recorded => ?_⟩
  have enclosed := enclosed recorded
  generalize (compile version o cache (some m) files).result = result at enclosed ⊢
  cases result with
  | ok compiled => exact enclosed
  | error e => exact enclosed

/-- However a compilation in one job ends, and whichever spans the level leaves out, every span that
begins ends exactly once, inside the span of the compilation where that is recorded. The end of that
one tells the failure. -/
theorem compile_events_bracketed (version : Text) (o : Options) (cache : Option Cache) (m : Module)
    (files : FileTree) (alone : o.jobs ≤ 1) :
    ∃ events : List Event,
      (∀ tracer : Tracer, tracer.level = o.recorder.tracer.level →
        (compile version { o with recorder := o.recorder.onto tracer } cache (some m)
          files).recorder = (o.recorder.onto tracer).after events) ∧
      (∀ e ∈ events, o.recorder.records e.scope = true) ∧
      Bracketed o.span events ∧
      (spans .spanBegin events).Nodup ∧ (∀ id ∈ spans .spanBegin events, o.recorder.lastSpan < id) ∧
      (spans .spanEnd events).Perm (spans .spanBegin events) ∧
      (o.recorder.records .module = true → Enclosed .module ("compile " ++ m.name)
        (match (compile version o cache (some m) files).result with
          | .ok _ => none
          | .error e => some [("error", e.message)]) events) := by
  obtain ⟨events, emits, nested, enclosed⟩ := compile_emits version cache m files alone
  refine ⟨events, fun tracer level => ?_, emits.recorded, nested, ?_, ?_, nested.ended_perm,
    enclosed⟩
  · have whole :=
      compile_eq_inSpan version { o with recorder := o.recorder.onto tracer } cache m files
    exact congrArg Prod.snd (whole.symm.trans (emits.handed tracer level))
  · rw [emits.numbered]
    exact List.nodup_range'
  · intro id mem
    rw [emits.numbered, List.mem_range'_1] at mem
    omega

/-- Divides by zero. -/
def divides : Module := ⟨1, "m", some [some ⟨2, "f", .int, .ret ⟨3, []⟩
  (.binary ⟨4, []⟩ .div (.int ⟨5, []⟩ 1) (.int ⟨6, []⟩ 0))⟩]⟩

/-- Where folding fails, the spans end as well. -/
theorem divides_bracketed :
    ∃ (first last : Event) (inner : List Event),
      (compile [] { fold := true, recorder := .ofTracer (.ring (.start 8 .debug)) } none
        (some divides) default).recorder.tracer =
          (Tracer.ring (.start 8 .debug)).emitAll (first :: (inner ++ [last])) ∧
      Bracketed 0 (first :: (inner ++ [last])) ∧ first.kind = .spanBegin ∧ last.extra =
        some ([("error", "function f: fold: 1 / 0: division by zero (node 4)")] : Notes) := by
  obtain ⟨events, handed, -, nested, -, -, -, enclosed⟩ :=
    compile_events_bracketed [] { fold := true, recorder := .ofTracer (.ring (.start 8 .debug)) }
      none divides default (by decide)
  obtain ⟨first, last, inner, rfl, begins, -, -, -, -, told⟩ := enclosed rfl
  refine ⟨first, last, inner, congrArg Recorder.tracer (handed _ rfl), nested, begins,
    told.trans ?_⟩
  decide +kernel

end MiddleEnd.Trace
