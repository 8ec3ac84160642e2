import Mathlib.Data.List.Nodup
import MiddleEnd.Proofs.Pipeline.Entries
import MiddleEnd.Proofs.Pipeline.Output

/-!
Compilations that share a cache. Their steps interleave as they like, filing may fail, and all
entries may be dropped at any time.
-/

namespace MiddleEnd.Pipeline

open Interchange (encode hasForm)

structure Job where
  options : Options
  module : Module

/-- A compilation has yet to look for its entry, has found none and is to file its own, or is at its
end. -/
inductive Standing where
  | ready
  | missed (key : Digest) (warnings : List Failure)
  | ended (result : Except Failure Compiled)

structure Call where
  job : Job
  standing : Standing

/-- The files that the cache is part of, and the compilations that share it. -/
structure Session where
  files : FileTree
  calls : List Call

def Session.jobs (s : Session) : List Job :=
  s.calls.map Call.job

namespace Job

/-- Without a cache, its functions may have other turns. -/
def alone (r : Job) (version : Text) (files : FileTree)
    (schedule : List Nat := r.options.schedule) : Outcome :=
  compile version { r.options with schedule } none (some r.module) files

def lookUp (r : Job) (version : Text) (c : Cache) (files : FileTree) : Standing :=
  match Cache.key version r.options r.module with
  | .error e => .ended (.error (.context "driver: cache key: " (.ofEncode e)))
  | .ok key =>
    match c.get files key with
    | .ok (some entry) => .ended (cacheHit r.options r.module entry key files).result
    | .ok none => .missed key []
    | .error e => .missed key [e]

def kept (r : Job) (version : Text) (c : Cache) (files : FileTree) (key : Digest)
    (warnings : List Failure) : Outcome :=
  (produced r.options r.module files).keep version r.options r.module c key warnings

def unkept (r : Job) (files : FileTree) (key : Digest) (warnings : List Failure)
    (e : PathError) : Except Failure Compiled :=
  (produced r.options r.module files).result.map fun compiled =>
    { compiled with warnings := warnings ++ [.cache "write" key.hex (.path e)] }

end Job

/-- Whatever else is different, no entry is there that was not there before. -/
structure Cache.NoneAdded (c : Cache) (files files' : FileTree) : Prop where
  workDir : files'.workDir = files.workDir
  entries : ∀ key content, files'.node? (c.place files.workDir key) = some (.file content) →
    files.node? (c.place files.workDir key) = some (.file content)

/-- One compilation asks the cache, or files its output or fails to, or all entries are dropped. -/
inductive Turn (version : Text) (c : Cache) : Session → Session → Prop
  | get {files : FileTree} {calls : List Call} {i : Nat} {r : Job}
      (stands : calls[i]? = some ⟨r, .ready⟩) :
      Turn version c ⟨files, calls⟩ ⟨files, calls.set i ⟨r, r.lookUp version c files⟩⟩
  | put {files : FileTree} {calls : List Call} {i : Nat} {r : Job} {key : Digest}
      {warnings : List Failure} (stands : calls[i]? = some ⟨r, .missed key warnings⟩) :
      Turn version c ⟨files, calls⟩
        ⟨(r.kept version c files key warnings).files,
          calls.set i ⟨r, .ended (r.kept version c files key warnings).result⟩⟩
  | putFails {files files' : FileTree} {calls : List Call} {i : Nat} {r : Job} {key : Digest}
      {warnings : List Failure} (stands : calls[i]? = some ⟨r, .missed key warnings⟩)
      (spared : c.NoneAdded files files') (e : PathError) :
      Turn version c ⟨files, calls⟩
        ⟨files', calls.set i ⟨r, .ended (r.unkept files key warnings e)⟩⟩
  | dropAll {files : FileTree} {calls : List Call} :
      Turn version c ⟨files, calls⟩ ⟨c.dropAll files, calls⟩

abbrev Runs (version : Text) (c : Cache) : Session → Session → Prop :=
  Relation.ReflTransGen (Turn version c)

def outputOf (result : Except Failure Compiled) : Option Text :=
  result.toOption.map Compiled.output

theorem outputOf_alone (r : Job) (version : Text) (files : FileTree) (schedule : List Nat) :
    outputOf (r.alone version files schedule).result = output? r.options r.module := by
  rw [Job.alone, (compile_same _ _ _ _ _).result]
  exact produced_output { r.options with schedule } r.module files

namespace Job

def file (r : Job) : Interchange.File := ⟨0, [], r.module⟩

def entry (r : Job) (version output : Text) : CacheEntry where
  name := r.module.name
  emit := r.options.emitMode
  version
  output

/-- The module is written as what it is, and in the file and in the entry every length finds
room. -/
structure Storable (r : Job) (version : Text) : Prop where
  canonical : r.module.Canonical
  file : hasForm .file r.file.withSchema.toDatum
  entry : ∀ files compiled, (r.alone version files).result = .ok compiled →
    hasForm .cacheEntry (r.entry version compiled.output).toDatum

def digested (r : Job) (version : Text) : List Text :=
  match encode .messagePack (some r.file) with
  | .ok encoded => Cache.digested version r.options encoded
  | .error _ => []

variable {r r' : Job} {version : Text}

theorem Storable.key (storable : r.Storable version) :
    ∃ key, Cache.key version r.options r.module = .ok key := by
  obtain ⟨v, formed, -⟩ := Interchange.hasForm_iff.mp storable.file
  refine ⟨_, Cache.key_eq_ok.mpr ⟨v.write, ?_, rfl⟩⟩
  apply mapError_eq_ok.mpr
  change Interchange.writeMessagePack .file r.file.withSchema.toDatum = _
  rw [Interchange.writeMessagePack, formed]
  rfl

theorem Storable.fits (storable : r.Storable version)
    (made : output? r.options r.module = some output) :
    hasForm .cacheEntry (r.entry version output).toDatum := by
  rw [← outputOf_alone r version default r.options.schedule] at made
  obtain ⟨compiled, succeeded, rfl⟩ := Option.map_eq_some_iff.mp made
  exact storable.entry default compiled (toOption_eq_some.mp succeeded)

theorem output?_eq_of_key (storable : r.Storable version) (storable' : r'.Storable version)
    (running : r.options.canceled = false) (running' : r'.options.canceled = false)
    (distinct : CollisionFree texts) (within : r.digested version ⊆ texts)
    (within' : r'.digested version ⊆ texts) (keyed : Cache.key version r.options r.module = .ok key)
    (keyed' : Cache.key version r'.options r'.module = .ok key) :
    output? r'.options r'.module = output? r.options r.module := by
  obtain ⟨encoded, written, rfl⟩ := Cache.key_eq_ok.mp keyed
  obtain ⟨encoded', written', same⟩ := Cache.key_eq_ok.mp keyed'
  have texts : r.digested version = Cache.digested version r.options encoded := by
    rw [digested, file, written]
  have texts' : r'.digested version = Cache.digested version r'.options encoded' := by
    rw [digested, file, written']
  obtain ⟨rfl, settings⟩ :=
    Cache.keyOf_injective distinct (texts' ▸ within') (texts ▸ within) same
  obtain ⟨folds, simplifies, emits⟩ := Cache.settings_injective settings
  apply output?_alike folds simplifies emits running running'
  exact Interchange.plain_eq_of_encode storable.canonical storable'.canonical storable.file
    storable'.file written written'

end Job

/-- How far a call came agrees with what its stages make. -/
def Call.Sound (version : Text) (call : Call) : Prop :=
  match call.standing with
  | .ready => True
  | .missed key _ => Cache.key version call.job.options call.job.module = .ok key
  | .ended result => outputOf result = output? call.job.options call.job.module

/-- Every entry holds the output of a job that has its key. -/
def Cache.Faithful (c : Cache) (version : Text) (jobs : List Job) (files : FileTree) :
    Prop :=
  ∀ key content, files.node? (c.place files.workDir key) = some (.file content) →
    ∃ r ∈ jobs, ∃ output, Cache.key version r.options r.module = .ok key ∧
      output? r.options r.module = some output ∧ content = (r.entry version output).encode

structure Session.Sound (version : Text) (c : Cache) (jobs : List Job) (s : Session) :
    Prop where
  asked : s.jobs = jobs
  faithful : c.Faithful version jobs s.files
  calls : ∀ call ∈ s.calls, call.Sound version

theorem Cache.Faithful.of_noneAdded {c : Cache} (faithful : c.Faithful version jobs files)
    (spared : c.NoneAdded files files') : c.Faithful version jobs files' := by
  intro key content there
  rw [spared.workDir] at there
  exact faithful key content (spared.entries key content there)

theorem Cache.dropAll_noneAdded (c : Cache) (files : FileTree) :
    c.NoneAdded files (c.dropAll files) := by
  have within := FileTree.removeAll_filesWithin files c.entriesDir
  exact ⟨within.workDir, fun key content => within.files _ content⟩

theorem outputOf_kept (r : Job) (version : Text) (c : Cache) (files : FileTree) (key : Digest)
    (warnings : List Failure) :
    outputOf (r.kept version c files key warnings).result = output? r.options r.module := by
  rw [← produced_output r.options r.module files, Job.kept, Outcome.keep]
  cases made : (produced r.options r.module files).result with
  | error e => simp only [made, outputOf]
  | ok compiled =>
    simp only
    split <;> rfl

theorem outputOf_unkept (r : Job) (files : FileTree) (key : Digest) (warnings : List Failure)
    (e : PathError) : outputOf (r.unkept files key warnings e) = output? r.options r.module := by
  rw [← produced_output r.options r.module files, Job.unkept]
  cases (produced r.options r.module files).result <;> rfl

section Turns

variable {version : Text} {c : Cache} {jobs : List Job}

variable {files : FileTree} {r : Job}

theorem faithful_kept (warnings : List Failure) (asked : r ∈ jobs)
    (keyed : Cache.key version r.options r.module = .ok key)
    (faithful : c.Faithful version jobs files) :
    c.Faithful version jobs (r.kept version c files key warnings).files := by
  have made := produced_output r.options r.module files
  have unchanged : (produced r.options r.module files).files = files := rfl
  rw [Job.kept, Outcome.keep]
  split
  · exact faithful
  · next compiled succeeded =>
    rw [succeeded] at made
    simp only [unchanged]
    split
    · next files' filed =>
      obtain ⟨sameDir, entries⟩ := Cache.put_files filed
      intro key' content there
      simp only [sameDir] at there
      rcases entries key' content there with ⟨rfl, rfl⟩ | before
      · exact ⟨r, asked, compiled.output, keyed, made.symm, rfl⟩
      · exact faithful key' content before
    · exact faithful

theorem mem_jobs {i : Nat} (stands : calls[i]? = some ⟨r, standing⟩) :
    r ∈ Session.jobs ⟨files, calls⟩ :=
  List.mem_map.mpr ⟨_, List.mem_of_getElem? stands, rfl⟩

theorem Session.Sound.advance {calls : List Call}
    (sound : Session.Sound version c jobs ⟨files, calls⟩) (stands : calls[i]? = some ⟨r, before⟩)
    (faithful : c.Faithful version jobs files') (moved : Call.Sound version ⟨r, after⟩) :
    Session.Sound version c jobs ⟨files', calls.set i ⟨r, after⟩⟩ := by
  refine ⟨?_, faithful, fun call member => ?_⟩
  · obtain ⟨within, here⟩ := List.getElem?_eq_some_iff.mp stands
    refine Eq.trans ?_ sound.asked
    simp only [Session.jobs, List.map_set]
    have bound : i < (calls.map Call.job).length := by rwa [List.length_map]
    have same : r = (calls.map Call.job)[i] := by rw [List.getElem_map, here]
    rw [same, List.set_getElem_self]
  · rcases List.mem_or_eq_of_mem_set member with before | rfl
    · exact sound.calls call before
    · exact moved

variable (storable : ∀ r ∈ jobs, r.Storable version)
  (running : ∀ r ∈ jobs, r.options.canceled = false)
  (distinct : CollisionFree (jobs.flatMap fun r => r.digested version))

include storable running distinct

theorem output_of_get (asked : r ∈ jobs) (keyed : Cache.key version r.options r.module = .ok key)
    (faithful : c.Faithful version jobs files) (found : c.get files key = .ok (some e)) :
    some e.output = output? r.options r.module := by
  obtain ⟨content, read⟩ := Cache.get_eq_some found
  obtain ⟨r', asked', output, keyed', made, rfl⟩ :=
    faithful key content (FileTree.find_eq_ok read)
  have entry := (Cache.get_of_file read ((storable r' asked').fits made)).symm.trans found
  cases Option.some.inj (Except.ok.inj entry)
  have within {r : Job} (asked : r ∈ jobs) :
      r.digested version ⊆ jobs.flatMap fun r => r.digested version :=
    fun t member => List.mem_flatMap.mpr ⟨r, asked, member⟩
  refine made.symm.trans ?_
  exact Job.output?_eq_of_key (storable r asked) (storable r' asked') (running r asked)
    (running r' asked') distinct (within asked) (within asked') keyed keyed'

theorem sound_lookUp (asked : r ∈ jobs) (faithful : c.Faithful version jobs files) :
    Call.Sound version ⟨r, r.lookUp version c files⟩ := by
  obtain ⟨key, keyed⟩ := (storable r asked).key
  simp only [Job.lookUp, keyed]
  split
  · next entry found => exact output_of_get storable running distinct asked keyed faithful found
  · exact keyed
  · exact keyed

theorem Turn.sound {s' : Session} (step : Turn version c s s') (sound : s.Sound version c jobs) :
    s'.Sound version c jobs := by
  cases step with
  | get stands =>
    have asked := sound.asked ▸ mem_jobs stands
    exact sound.advance stands sound.faithful
      (sound_lookUp storable running distinct asked sound.faithful)
  | put stands =>
    have asked := sound.asked ▸ mem_jobs stands
    have keyed := sound.calls _ (List.mem_of_getElem? stands)
    exact sound.advance stands (faithful_kept _ asked keyed sound.faithful)
      (outputOf_kept _ version c _ _ _)
  | putFails stands spared e =>
    exact sound.advance stands (sound.faithful.of_noneAdded spared) (outputOf_unkept _ _ _ _ e)
  | dropAll => exact ⟨sound.asked, sound.faithful.of_noneAdded (c.dropAll_noneAdded _), sound.calls⟩

theorem Runs.sound (runs : Runs version c s s') (sound : s.Sound version c jobs) :
    s'.Sound version c jobs := by
  induction runs with
  | refl => exact sound
  | tail _ step ih => exact step.sound storable running distinct ih

end Turns

end MiddleEnd.Pipeline
