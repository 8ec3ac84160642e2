import MiddleEnd.Pipeline.Build
import MiddleEnd.Proofs.Diagnostic.Leaves
import MiddleEnd.Proofs.Diagnostic.Retention
import MiddleEnd.Proofs.Pipeline.Staged

/-!
Whether a build as a whole succeeds is decided by what became of its files.
-/

namespace MiddleEnd.Pipeline

open List

variable {display : Text}

def Compiled.PlainlyWarned (c : Compiled) : Prop := ∀ w ∈ c.warnings, w.Joinless

variable {e : Failure} {cache : Cache} {files : FileTree} {o : Options} {m : Module} {c : Compiled}
  {r : Request}

theorem checkProducer_joinless {info : BuildInfo} (found : info.checkProducer producer = some e) :
    e.Joinless := by
  unfold BuildInfo.checkProducer at found
  split at found
  · cases found
  · split at found
    · cases found
    · split at found
      · cases found
        trivial
      · split at found
        · cases found
        · cases found
          trivial

theorem Cache.get_joinless {key : Digest} (failed : cache.get files key = .error e) :
    e.Joinless := by
  unfold Cache.get at failed
  dsimp only at failed
  split at failed
  · cases failed
  · cases failed
    trivial
  · cases failed
    trivial
  · split at failed
    · cases failed
      trivial
    · cases failed

theorem produced_plainlyWarned (succeeded : (produced o m files).result = .ok c) :
    c.PlainlyWarned := by
  rw [produced_result] at succeeded
  cases outcome : staged o m with
  | error e =>
    rw [outcome] at succeeded
    cases succeeded
  | ok product =>
    rw [outcome] at succeeded
    cases succeeded
    exact forall_mem_nil _

theorem keep_plainlyWarned {outcome : Outcome} (joinless : ∀ w ∈ warnings, w.Joinless)
    (succeeded : (outcome.keep version o m cache key warnings).result = .ok c) :
    c.PlainlyWarned := by
  unfold Outcome.keep at succeeded
  split at succeeded
  · next failed =>
    rw [failed] at succeeded
    cases succeeded
  · dsimp only at succeeded
    split at succeeded
    · cases succeeded
      exact joinless
    · cases succeeded
      exact forall_mem_append.mpr ⟨joinless, forall_mem_singleton.mpr trivial⟩

theorem throughCache_plainlyWarned
    (succeeded : (throughCache version o m cache files).result = .ok c) : c.PlainlyWarned := by
  unfold throughCache at succeeded
  split at succeeded
  · cases succeeded
  · split at succeeded
    · cases succeeded
      exact forall_mem_nil _
    · exact keep_plainlyWarned (forall_mem_nil _) succeeded
    · next unread =>
      exact keep_plainlyWarned (forall_mem_singleton.mpr (Cache.get_joinless unread))
        succeeded

theorem compileFile_plainlyWarned {info : BuildInfo} {cache : Option Cache} {path : Text}
    (succeeded : (compileFile info o cache path files).result = .ok c) : c.PlainlyWarned := by
  unfold compileFile at succeeded
  dsimp only at succeeded
  split at succeeded
  · cases succeeded
  · next source _ =>
    dsimp only at succeeded
    cases outcome : (compile info.version o cache (some source.module) files).result with
    | error e =>
      rw [outcome] at succeeded
      cases succeeded
    | ok compiled =>
      rw [outcome] at succeeded
      cases succeeded
      refine forall_mem_append.mpr ⟨?_, ?_⟩
      · intro w member
        obtain ⟨e, found, rfl⟩ := mem_map.mp member
        have cause : e.Joinless :=
          checkProducer_joinless (Option.mem_def.mp (Option.mem_toList.mp found))
        exact cause
      · rw [(compile_same _ _ _ _ _).result] at outcome
        cases cache with
        | none => exact @produced_plainlyWarned files o source.module compiled outcome
        | some cache => exact throughCache_plainlyWarned outcome

/-- The file could not be compiled, or its output not be written. -/
def Outcome.Fails (outcome : Outcome) (output : Text) : Prop :=
  match outcome.result with
  | .error _ => True
  | .ok c => output ≠ [] ∧ ∃ e, outcome.files.write output c.output = .error e

/-- The file was compiled, and there is something to warn of. -/
def Outcome.Warns (outcome : Outcome) : Prop := ∃ c, outcome.result = .ok c ∧ c.warnings ≠ []

/-- The result of a file tells what became of it. -/
structure FileResult.Tells (f : FileResult) (outcome : Outcome) (output : Text) : Prop where
  fails : f.failure.isSome ↔ outcome.Fails output
  warns : f.warnings ≠ [] ↔ outcome.Warns

theorem FileResult.Tells.of_same {f : FileResult} {outcome outcome' : Outcome} {output : Text}
    (tells : f.Tells outcome output) (same : outcome.Same outcome') : f.Tells outcome' output := by
  have fails : outcome.Fails output ↔ outcome'.Fails output := by
    rw [Outcome.Fails, Outcome.Fails, same.result, same.files]
  have warns : outcome.Warns ↔ outcome'.Warns := by
    rw [Outcome.Warns, Outcome.Warns, same.result]
  exact ⟨tells.fails.trans fails, tells.warns.trans warns⟩

def warningSeverity (werror : Bool) : Diagnostic.Severity := if werror then .error else .warning

theorem warningDiagnostics_severity (member : d ∈ warningDiagnostics werror display w) :
    d.severity = warningSeverity werror := by
  obtain ⟨_, -, rfl⟩ := mem_map.mp member
  rfl

theorem flatMap_warningDiagnostics_ne_nil (plainly : c.PlainlyWarned) (werror : Bool)
    (display : Text) :
    c.warnings.flatMap (warningDiagnostics werror display) ≠ [] ↔ c.warnings ≠ [] := by
  unfold Compiled.PlainlyWarned at plainly
  cases warnings : c.warnings with
  | nil => simp
  | cons w rest =>
    rw [warnings, forall_mem_cons] at plainly
    refine iff_of_true (fun none => ?_) (cons_ne_nil _ _)
    rw [flatMap_cons, append_eq_nil_iff] at none
    have one := Diagnostic.length_ofFailure plainly.1 display (warningCode w)
    rw [← length_eq_zero_iff, warningDiagnostics, length_map, one] at none
    exact Nat.one_ne_zero none.1

section Files

variable {info : BuildInfo} {r : Request}

theorem buildFile_tells (running : r.options.canceled = false) (file display output : Text)
    (files : FileTree) :
    (buildFile info r file display output files).result.Tells
      (compileFile info r.options r.cache file files) output := by
  unfold buildFile
  simp only [running, Bool.false_eq_true, if_false]
  cases outcome : (compileFile info r.options r.cache file files).result with
  | error e => exact ⟨by simp [Outcome.Fails, outcome], by simp [Outcome.Warns, outcome]⟩
  | ok c =>
    have warned := flatMap_warningDiagnostics_ne_nil (compileFile_plainlyWarned outcome) r.werror
      display
    have warns : (compileFile info r.options r.cache file files).Warns ↔ c.warnings ≠ [] := by
      simp [Outcome.Warns, outcome]
    cases output with
    | nil => exact ⟨by simp [Outcome.Fails, outcome], warned.trans warns.symm⟩
    | cons b rest =>
      dsimp only [isEmpty_cons]
      simp only [Bool.false_eq_true, if_false]
      split
      · next written =>
        exact ⟨by simp [Outcome.Fails, outcome, written], warned.trans warns.symm⟩
      · next refused =>
        exact ⟨by simp [Outcome.Fails, outcome, refused], warned.trans warns.symm⟩

theorem buildFile_warnings {output : Text}
    (member : d ∈ (buildFile info r file display output files).result.warnings) :
    d.severity = warningSeverity r.werror := by
  have told : ∀ c : Compiled, d ∈ c.warnings.flatMap (warningDiagnostics r.werror display) →
      d.severity = warningSeverity r.werror := by
    intro c member
    obtain ⟨w, -, member⟩ := mem_flatMap.mp member
    exact warningDiagnostics_severity member
  unfold buildFile at member
  dsimp only at member
  split at member
  · cases member
  · split at member
    · cases member
    · next c _ =>
      split at member
      · exact told c member
      · split at member <;> exact told c member

/-- What was built was built as its place says, whenever that was. -/
def Building.Genuine (info : BuildInfo) (r : Request) (jobs : List (Text × Text × Text))
    (s : Building) : Prop :=
  ∀ i b, s.built.lookup i = some b → ∃ file display output recorder tree,
    jobs[i]? = some (file, display, output) ∧
      b = buildFile info { r with options := { r.options with recorder } } file display output tree

variable {jobs : List (Text × Text × Text)} {s : Building}

theorem Building.Genuine.step (genuine : s.Genuine info r jobs) (i : Nat) :
    (s.step info r jobs i).Genuine info r jobs := by
  unfold Building.step
  split
  · next file display output _ job =>
    intro j b found
    simp only [lookup_cons] at found
    split at found
    · next here =>
      cases found
      exact ⟨file, display, output, s.recorder, s.files, eq_of_beq here ▸ job, rfl⟩
    · exact genuine j b found
  · exact genuine

theorem Building.step_builds (inside : i < jobs.length)
    (already : (s.built.lookup i).isSome ∨ i = j) :
    ((s.step info r jobs j).built.lookup i).isSome := by
  unfold Building.step
  split
  · simp only [lookup_cons]
    split
    · rfl
    · next other => exact already.resolve_right fun same => by simp [same] at other
  · next stays =>
    rcases already with built | rfl
    · exact built
    · cases built : s.built.lookup i with
      | some b => rfl
      | none => exact absurd (List.getElem?_eq_getElem inside) (stays _ _ _ built)

theorem Building.steps_build (inside : i < jobs.length) (l : List Nat)
    (already : (s.built.lookup i).isSome ∨ i ∈ l) :
    ((l.foldl (Building.step info r jobs) s).built.lookup i).isSome := by
  induction l generalizing s with
  | nil => exact already.resolve_right not_mem_nil
  | cons j rest ih =>
    refine ih ?_
    rw [mem_cons, ← or_assoc] at already
    exact already.imp_left (step_builds inside)

theorem Building.Genuine.steps (genuine : s.Genuine info r jobs) (l : List Nat) :
    (l.foldl (Building.step info r jobs) s).Genuine info r jobs := by
  induction l generalizing s with
  | nil => exact genuine
  | cons i rest ih => exact ih (genuine.step i)

theorem inOrder_buildFiles (files : FileTree) :
    ((buildFiles info r jobs files).inOrder jobs.length).map some =
      (List.range jobs.length).map fun i => (buildFiles info r jobs files).built.lookup i := by
  refine Lowering.map_some_filterMap fun i member => ?_
  exact Building.steps_build (mem_range.mp member) _ (.inr (mem_append_right _ member))

theorem length_buildFiles (files : FileTree) :
    ((buildFiles info r jobs files).inOrder jobs.length).length = jobs.length := by
  have same := congrArg List.length (@inOrder_buildFiles info r jobs files)
  simpa only [length_map, length_range] using same

theorem buildFiles_getElem? {i : Nat} (job : jobs[i]? = some (file, display, output))
    (files : FileTree) :
    ∃ recorder tree, ((buildFiles info r jobs files).inOrder jobs.length)[i]? =
      some (buildFile info { r with options := { r.options with recorder } } file display output
        tree) := by
  have genuine : (buildFiles info r jobs files).Genuine info r jobs :=
    Building.Genuine.steps (s := { recorder := r.options.recorder, files }) nofun _
  have here := congrArg (·[i]?) (@inOrder_buildFiles info r jobs files)
  have inside := (List.getElem?_eq_some_iff.mp job).1
  simp only [List.getElem?_map, List.getElem?_range inside, Option.map_some] at here
  obtain ⟨b, placed, found⟩ := Option.map_eq_some_iff.mp here
  obtain ⟨_, _, _, recorder, tree, job', rfl⟩ := genuine i b found.symm
  cases job.symm.trans job'
  exact ⟨recorder, tree, placed⟩

end Files

namespace Request

/-- Where the output of a file goes; nowhere without a directory. -/
def outputFor (r : Request) (file : Text) : Text :=
  if r.outDir.isEmpty then [] else r.outputPath file

theorem outputPathsFrom_eq {files : List Text} (apart : (files.map r.outputPath).Nodup)
    (free : ∀ file ∈ files, owners.lookup (r.outputPath file) = none) :
    r.outputPathsFrom owners files = .ok (files.map r.outputPath) := by
  induction files generalizing owners with
  | nil => rfl
  | cons file rest ih =>
    rw [map_cons, nodup_cons] at apart
    have stillFree : ∀ other ∈ rest,
        List.lookup (r.outputPath other) ((r.outputPath file, file) :: owners) = none := by
      intro other member
      have distinct : r.outputPath other ≠ r.outputPath file :=
        fun same => apart.1 (same ▸ mem_map_of_mem member)
      rw [lookup_cons, beq_false_of_ne distinct]
      exact free other (mem_cons_of_mem file member)
    rw [outputPathsFrom]
    simp only [free file mem_cons_self, ih apart.2 stillFree]
    rfl

theorem outputPaths_eq (apart : r.outDir = [] ∨ (r.files.map r.outputPath).Nodup) :
    r.outputPaths = .ok (r.files.map r.outputFor) := by
  unfold outputPaths outputFor
  cases dir : r.outDir with
  | nil => rfl
  | cons b rest =>
    have apart := apart.resolve_left (by rw [dir]; exact cons_ne_nil b rest)
    exact outputPathsFrom_eq apart fun _ _ => rfl

end Request

theorem hasErrors_collect (limit : Int) (results : List FileResult) :
    (collect limit results).hasErrors ↔
      (∃ f ∈ results, ∃ e, f.failure = some e ∧
        ∃ d ∈ Diagnostic.ofFailure f.display .unknown e, d.Severe) ∨
      ∃ f ∈ results, ∃ d ∈ f.warnings, d.Severe := by
  unfold collect
  rw [Diagnostic.Bag.hasErrors_sort_dedup, Diagnostic.Bag.hasErrors_addAll]
  constructor
  · rintro ⟨d, member, severe⟩
    rcases mem_append.mp member with member | member
    · obtain ⟨f, result, member⟩ := mem_flatMap.mp member
      cases failed : f.failure with
      | none =>
        rw [failed] at member
        cases member
      | some e =>
        rw [failed] at member
        exact .inl ⟨f, result, e, failed, d, member, severe⟩
    · obtain ⟨f, result, member⟩ := mem_flatMap.mp member
      exact .inr ⟨f, result, d, member, severe⟩
  · rintro (⟨f, result, e, failed, d, member, severe⟩ | ⟨f, result, d, member, severe⟩)
    · refine ⟨d, mem_append_left _ (mem_flatMap.mpr ⟨f, result, ?_⟩), severe⟩
      rw [failed]
      exact member
    · exact ⟨d, mem_append_right _ (mem_flatMap.mpr ⟨f, result, member⟩), severe⟩

theorem verdict_eq_none (running : r.options.canceled = false) (results : List FileResult)
    (bag : Diagnostic.Bag) :
    verdict r results bag = none ↔
      (∀ f ∈ results, f.failure = none) ∧ (r.werror = false ∨ bag.hasErrors = false) := by
  have unfailed : (results.countP fun f => f.failure.isSome) = 0 ↔
      ∀ f ∈ results, f.failure = none := by
    simp [countP_eq_zero]
  unfold verdict
  rw [← unfailed]
  simp only [running, Bool.false_eq_true, if_false]
  split
  · next none =>
    cases r.werror <;> cases bag.hasErrors <;> simp [none]
  · next some => simp [some]

theorem verdict_hasCondition (running : r.options.canceled = false)
    (failed : verdict r results bag = some e) : e.hasCondition .buildFailed := by
  unfold verdict at failed
  simp only [running, Bool.false_eq_true, if_false] at failed
  split at failed
  · split at failed
    · cases failed
      rfl
    · cases failed
  · cases failed
    rfl

theorem verdict_congr {r' : Request} (options : r'.options = r.options)
    (werror : r'.werror = r.werror) (files : r'.files = r.files) (results : List FileResult)
    {bag bag' : Diagnostic.Bag} (same : bag'.hasErrors = bag.hasErrors) :
    verdict r' results bag' = verdict r results bag := by
  simp only [verdict, options, werror, files, same]

/-- Nothing keeps the build from starting: there is something to build, no two files write the same
output, and the directory of the outputs can be made. -/
structure Request.Startable (r : Request) (files : FileTree) : Prop where
  nonempty : r.files ≠ []
  apart : r.outDir = [] ∨ (r.files.map r.outputPath).Nodup
  room : r.outDir = [] ∨ ∃ tree, files.makeDirs r.outDir = .ok tree
  running : r.options.canceled = false

def Request.jobs (r : Request) (workDir : Text) : List (Text × Text × Text) :=
  r.files.map fun file => (file, displayName workDir file r.baseDir, r.outputFor file)

/-- The request that its files are built for, inside the span of the build. -/
def Request.inside (r : Request) : Request :=
  let begun := (Trace.start r.options.span .driver "build").run r.options.recorder
  { r with options := { r.options with recorder := begun.2, span := begun.1.1 } }

theorem zip_map_self {α β : Type} (f : α → β) (l : List α) :
    l.zip (l.map f) = l.map fun a => (a, f a) := by
  have paired : (l.map id).zip (l.map f) = l.map fun a => (a, f a) := zip_map'
  rwa [map_id] at paired

section Build

variable {info : BuildInfo} {r : Request} {files tree : FileTree}

theorem Request.Startable.prepared (startable : r.Startable files) :
    ∃ tree, (if r.outDir.isEmpty then .ok files else files.makeDirs r.outDir) = .ok tree := by
  rcases startable.room with none | ⟨tree, made⟩
  · exact ⟨files, by rw [none]; rfl⟩
  · split
    · exact ⟨files, rfl⟩
    · exact ⟨tree, made⟩

theorem build_of_prepared (startable : r.Startable files)
    (prepared : (if r.outDir.isEmpty then .ok files else files.makeDirs r.outDir) = .ok tree) :
    (build info r files).results =
        ((buildFiles info r.inside (r.jobs tree.workDir) tree).inOrder
          (r.jobs tree.workDir).length).map BuiltFile.result ∧
      (build info r files).failure =
        verdict r (build info r files).results
          (collect r.maxDiagnostics (build info r files).results) := by
  have jobs : r.files.zip ((r.files.map fun f => displayName tree.workDir f r.baseDir).zip
      (r.files.map r.outputFor)) = r.jobs tree.workDir := by
    rw [zip_map', zip_map_self]
    rfl
  have some : r.files.isEmpty = false := by
    simpa using startable.nonempty
  have count : (r.jobs tree.workDir).length = r.files.length := length_map _
  rw [count]
  unfold build
  simp only [some, Bool.false_eq_true, if_false, Request.outputPaths_eq startable.apart, prepared,
    jobs]
  exact ⟨rfl, rfl⟩

theorem results_tell (startable : r.Startable files) :
    (build info r files).results.length = r.files.length ∧
      ∀ (i : Nat) (file : Text), r.files[i]? = some file →
        ∃ (f : FileResult) (before : FileTree), (build info r files).results[i]? = some f ∧
          f.Tells (compileFile info r.options r.cache file before) (r.outputFor file) := by
  obtain ⟨tree, prepared⟩ := startable.prepared
  rw [(build_of_prepared startable prepared).1]
  refine ⟨by rw [length_map, length_buildFiles, Request.jobs, length_map], ?_⟩
  intro i file found
  have job : (r.jobs tree.workDir)[i]? =
      some (file, displayName tree.workDir file r.baseDir, r.outputFor file) := by
    rw [Request.jobs, List.getElem?_map, found]
    rfl
  obtain ⟨recorder, before, built⟩ := buildFiles_getElem? job tree
  have tells := @buildFile_tells info
    { r.inside with options := { r.inside.options with recorder } } startable.running file
    (displayName tree.workDir file r.baseDir) (r.outputFor file) before
  exact ⟨_, before, by rw [List.getElem?_map, built]; rfl,
    tells.of_same (compileFile_same info r.options recorder _ r.cache file before)⟩

theorem results_severity (startable : r.Startable files) :
    ∀ f ∈ (build info r files).results, ∀ d ∈ f.warnings,
      d.severity = warningSeverity r.werror := by
  obtain ⟨tree, prepared⟩ := startable.prepared
  rw [(build_of_prepared startable prepared).1]
  intro f member d warning
  obtain ⟨b, built, rfl⟩ := mem_map.mp member
  obtain ⟨i, placed⟩ := List.getElem?_of_mem built
  have inside := (List.getElem?_eq_some_iff.mp placed).1
  rw [length_buildFiles] at inside
  obtain ⟨recorder, before, same⟩ := buildFiles_getElem? (List.getElem?_eq_getElem inside) tree
  cases placed.symm.trans same
  have told := buildFile_warnings warning
  exact told

theorem hasErrors_collect_eq_false (limit : Int) (unfailed : ∀ f ∈ results, f.failure = none)
    (severe : ∀ f ∈ results, ∀ d ∈ f.warnings, d.Severe) :
    (collect limit results).hasErrors = false ↔ ∀ f ∈ results, f.warnings = [] := by
  rw [← Bool.not_eq_true, hasErrors_collect]
  constructor
  · intro clean f result
    refine eq_nil_iff_forall_not_mem.mpr fun d member => clean (.inr ?_)
    exact ⟨f, result, d, member, severe f result d member⟩
  · rintro unwarned (⟨f, result, e, failed, -⟩ | ⟨f, result, d, member, -⟩)
    · rw [unfailed f result] at failed
      cases failed
    · rw [unwarned f result] at member
      cases member

theorem failure_eq_none_iff (startable : r.Startable files) :
    (build info r files).failure = none ↔
      (∀ f ∈ (build info r files).results, f.failure = none) ∧
        (r.werror = false ∨ ∀ f ∈ (build info r files).results, f.warnings = []) := by
  obtain ⟨tree, prepared⟩ := startable.prepared
  have severity := @results_severity info r files startable
  rw [(build_of_prepared startable prepared).2, verdict_eq_none startable.running]
  refine and_congr_right fun unfailed => ?_
  cases werror : r.werror with
  | false => simp
  | true =>
    have severe : ∀ f ∈ (build info r files).results, ∀ d ∈ f.warnings, d.Severe := by
      intro f result d member
      rw [Diagnostic.Severe, severity f result d member, werror]
      exact UInt8.le_refl _
    rw [hasErrors_collect_eq_false r.maxDiagnostics unfailed severe]

theorem failure_limit (startable : r.Startable files) (limit : Int) :
    (build info { r with maxDiagnostics := limit } files).failure =
      (build info r files).failure := by
  obtain ⟨tree, prepared⟩ := startable.prepared
  have limited : Request.Startable { r with maxDiagnostics := limit } files :=
    ⟨startable.nonempty, startable.apart, startable.room, startable.running⟩
  have same : (build info { r with maxDiagnostics := limit } files).results =
      (build info r files).results := by
    rw [(build_of_prepared limited prepared).1, (build_of_prepared startable prepared).1]
    rfl
  rw [(build_of_prepared limited prepared).2, (build_of_prepared startable prepared).2, same]
  -- The bags differ in what they hold, but not in whether an error is among it.
  refine verdict_congr rfl rfl rfl _ ?_
  rw [Bool.eq_iff_iff, hasErrors_collect, hasErrors_collect]

/-- A build that can start succeeds exactly when no file failed and, where warnings are taken for
errors, none warned. How many diagnostics are kept has no part in it. -/
theorem verdict_independent_of_limit (startable : r.Startable files) :
    ((build info r files).results.length = r.files.length ∧
      ∀ (i : Nat) (file : Text), r.files[i]? = some file →
        ∃ (f : FileResult) (before : FileTree), (build info r files).results[i]? = some f ∧
          f.Tells (compileFile info r.options r.cache file before) (r.outputFor file)) ∧
    ((build info r files).failure = none ↔
      (∀ f ∈ (build info r files).results, f.failure = none) ∧
        (r.werror = false ∨ ∀ f ∈ (build info r files).results, f.warnings = [])) ∧
    (∀ e, (build info r files).failure = some e → e.hasCondition .buildFailed) ∧
    ∀ limit, (build info { r with maxDiagnostics := limit } files).failure =
      (build info r files).failure := by
  refine ⟨results_tell startable, failure_eq_none_iff startable, ?_, failure_limit startable⟩
  intro e failed
  obtain ⟨tree, prepared⟩ := startable.prepared
  rw [(build_of_prepared startable prepared).2] at failed
  exact verdict_hasCondition startable.running failed

end Build

/-- Two files from a later version of their producer. -/
def staleFiles : FileTree where
  nodes :=
    [(["w"], .dir),
      (["w", "a.json"], .file
        "\x7b\"schema\":1,\"producer\":\"parser 9.0.0\",\"module\":\x7b\"id\":1,\"name\":\"a\"\x7d\x7d"),
      (["w", "b.json"], .file
        "\x7b\"schema\":1,\"producer\":\"parser 9.0.1\",\"module\":\x7b\"id\":1,\"name\":\"b\"\x7d\x7d")]
  workDir := "/w"

def staleRequest (limit : Int) : Request where
  files := ["a.json", "b.json"]
  outDir := "/w/out"
  maxDiagnostics := limit
  werror := true

/-- Both files are compiled and written, and the build fails all the same. -/
theorem stale_verdict :
    (staleRequest 1).Startable staleFiles ∧ ∀ limit, ∃ e,
      (build {} (staleRequest limit) staleFiles).failure = some e ∧
        e.hasCondition .buildFailed := by
  have startable : (staleRequest 1).Startable staleFiles := by
    refine ⟨cons_ne_nil _ _, .inr (by decide +kernel), .inr ?_, rfl⟩
    have made : (staleFiles.makeDirs (staleRequest 1).outDir).toOption.isSome := by
      decide +kernel
    obtain ⟨tree, made⟩ := Option.isSome_iff_exists.mp made
    exact ⟨tree, toOption_eq_some.mp made⟩
  obtain ⟨-, passes, told, same⟩ := @verdict_independent_of_limit {} _ _ startable
  have warned : ((build {} (staleRequest 1) staleFiles).results.all fun f => f.warnings.isEmpty) =
      false := by decide +kernel
  refine ⟨startable, fun limit => ?_⟩
  cases failure : (build {} (staleRequest 1) staleFiles).failure with
  | some e => exact ⟨e, (same limit).trans failure, told e failure⟩
  | none =>
    rcases (passes.mp failure).2 with off | unwarned
    · cases off
    · have all := all_eq_true.mpr fun f result => isEmpty_iff.mpr (unwarned f result)
      rw [warned] at all
      cases all

end MiddleEnd.Pipeline
