import MiddleEnd.Proofs.Scoping.Extension

/-!
A table with any number of stacks over it, under any sequence of operations.
-/

namespace MiddleEnd.Scoping

open List Option Table

variable {ref : BindingRef} {key : NodeId}

/-- Operations on the table, and on the stacks by their numbers. -/
inductive Operation where
  | enter (kind : ScopeKind) (id parent : NodeId)
  | declare (scope : NodeId) (name : Text) (mutable : Bool) (type : Ty)
  | bind (scope : NodeId) (name : Text) (storage : Ir.LocalId)
  | push (stack : Nat) (kind : ScopeKind) (id : NodeId)
  | pop (stack : Nat) (id : NodeId)
  | unwind (stack : Nat) (depth : Int)
  | reach (stack : Nat) (name : Text) (mutable : Bool) (type : Ty) (storage : Ir.LocalId)

/-- A stack that was never used is empty, as a new one is. -/
structure Workspace where
  table : Table
  stackOf : Nat → Stack

namespace Workspace

def start : Workspace := ⟨.empty, fun _ => .empty⟩

def setStack (w : Workspace) (i : Nat) (s : Stack) : Workspace :=
  { w with stackOf := fun j => if j = i then s else w.stackOf j }

def settle (w : Workspace) : Except ScopeError Workspace → Workspace × Option ScopeError
  | .ok w' => (w', none)
  | .error e => (w, some e)

/-- The state after an operation, and its error if it fails. -/
def perform (w : Workspace) : Operation → Workspace × Option ScopeError
  | .enter kind id parent =>
    w.settle ((w.table.enter kind id parent).map fun t => { w with table := t })
  | .declare scope name mutable type =>
    w.settle ((w.table.declare scope name mutable type).map fun done => { w with table := done.1 })
  | .bind scope name storage =>
    w.settle ((w.table.bind scope name storage).map fun t => { w with table := t })
  | .push i kind id =>
    w.settle (((w.stackOf i).push w.table kind id).map fun done =>
      { w.setStack i done.1 with table := done.2 })
  | .pop i id => w.settle (((w.stackOf i).pop w.table id).map fun s => w.setStack i s)
  | .unwind i depth => (w.setStack i ((w.stackOf i).unwind depth.toNat), none)
  | .reach i name mutable type storage =>
    let done := (w.stackOf i).declare w.table name mutable type storage
    match done.2 with
    | .ok result => ({ w.setStack i result.1 with table := done.1 }, none)
    | .error e => ({ w with table := done.1 }, some e)

def performAll (w : Workspace) (ops : List Operation) : Workspace :=
  ops.foldl (fun w op => (w.perform op).1) w

end Workspace

variable {t t' : Table} {scope id parent : NodeId} {name : Text}

theorem Rooted.enter {kind : ScopeKind} (rooted : Rooted t.outline)
    (entered : t.enter kind id parent = .ok t') : Rooted t'.outline := by
  obtain ⟨numbered, ⟨-, -, -, -, rfl⟩ | ⟨missing, known, rfl⟩⟩ := enter_cases entered
  · exact rooted
  · rw [outline_append]
    refine .snoc kind rooted numbered ?_ (known.imp_right fun recorded => ?_)
    · rw [outline_keys, mem_keys_iff, missing]
      exact Bool.false_ne_true
    · rwa [outline_keys, mem_keys_iff]

namespace Table

theorem Coherent.declares_of_declare (coherent : t.Coherent)
    (declared : t.declare scope name mutable type = .ok (t', ref)) :
    t.Declares t' scope ref ⟨name, mutable, type, Ir.noId⟩ := by
  cases recorded : t.scope? scope with
  | none => simp [Table.declare, recorded] at declared
  | some s =>
    cases position : s.position? name with
    | some i => simp [Table.declare, recorded, position] at declared
    | none =>
      have missing : t.find? scope name = none := by simp [find?, recorded, position]
      obtain ⟨t₁, ref₁, again, declares⟩ :=
        coherent.declare (isSome_of_mem recorded) missing mutable type
      cases again.symm.trans declared
      exact declares

theorem Coherent.declares_of_bind (coherent : t.Coherent) {storage : Ir.LocalId}
    (bound : t.bind scope name storage = .ok t') : ∃ ref b, t.Declares t' scope ref b := by
  cases recorded : t.scope? scope with
  | none => simp [bind, recorded] at bound
  | some s =>
    cases found : t.find? scope name with
    | none => simp [bind, recorded, found] at bound
    | some ref =>
      obtain ⟨-, b, binding, rfl⟩ := coherent.find?_eq_some.mp found
      simp only [bind, recorded, found, Except.ok.injEq] at bound
      cases bound
      exact ⟨ref, _, (coherent.declares_recorded found binding).modifyBinding _ fun _ => rfl⟩

end Table

/-- The open scopes are recorded one inside the other, and each visible name leads to its record. -/
structure Stack.Fits (s : Stack) (t : Table) : Prop where
  chained : Chained t s.frames
  visible : ∀ frame ∈ s.frames, ∀ name ref, frame.visible.lookup name = some ref →
    t.find? frame.scope name = some ref

namespace Stack.Fits

variable {s : Stack}

theorem within (fits : s.Fits t) (within : t.Within t') : s.Fits t' :=
  ⟨fits.chained.within within, fun frame member name ref visible =>
    within.names _ _ _ (fits.visible frame member name ref visible)⟩

theorem suffix {frames : List Frame} (fits : Stack.Fits ⟨front ++ frames⟩ t) :
    Stack.Fits ⟨frames⟩ t :=
  ⟨fits.chained.suffix, fun frame member => fits.visible frame (mem_append_right front member)⟩

theorem push (fits : s.Fits t) (coherent : t.Coherent) {kind : ScopeKind}
    (entered : t.enter kind id (s.topId t) = .ok t') : Stack.Fits ⟨⟨id, []⟩ :: s.frames⟩ t' where
  chained := fits.chained.push coherent entered
  visible frame member name ref visible := by
    rcases mem_cons.mp member with rfl | outer
    · cases visible
    · exact (fits.within (.enter entered)).visible frame outer name ref visible

/-- Making a name visible either fails and changes nothing, or records it. -/
theorem declare_cases (fits : s.Fits t) (coherent : t.Coherent) (name : Text) (mutable : Bool)
    (type : Ty) (storage : Ir.LocalId) :
    (∃ e, s.declare t name mutable type storage = (t, .error e)) ∨
      ∃ t' s' ref scope, s.declare t name mutable type storage = (t', .ok (s', ref)) ∧
        t.Declares t' scope ref ⟨name, mutable, type, storage⟩ ∧ s'.Fits t' := by
  obtain ⟨_ | ⟨frame, outer⟩⟩ := s
  · exact .inl ⟨_, rfl⟩
  · cases visible : frame.visible.lookup name with
    | some ref => exact .inl ⟨_, declare_visible outer visible mutable type storage⟩
    | none =>
      have recorded := fits.chained.recorded frame mem_cons_self
      obtain ⟨t', ref, equation, declares⟩ :=
        declare_new coherent outer recorded visible mutable type storage
      have fits' := fits.within (declares.within coherent)
      refine .inr ⟨t', _, ref, frame.scope, equation, declares, fits'.chained, ?_⟩
      intro frame' member other ref' visible'
      rcases mem_cons.mp member with rfl | inOuter
      · dsimp only at visible' ⊢
        rw [lookup_cons] at visible'
        split at visible'
        · next same =>
          cases visible'
          rw [declares.found, if_pos (eq_of_beq same)]
        · exact fits'.visible frame mem_cons_self other ref' visible'
      · exact fits'.visible frame' (mem_cons_of_mem _ inOuter) other ref' visible'

end Stack.Fits

namespace Workspace

structure Sound (w : Workspace) : Prop where
  coherent : w.table.Coherent
  rooted : Rooted w.table.outline
  fits : ∀ i, (w.stackOf i).Fits w.table

/-- All that an operation can do: records are only added or filled in, and a failure leaves all as it
was. -/
structure Advances (w : Workspace) (result : Workspace × Option ScopeError) : Prop where
  sound : result.1.Sound
  within : w.table.Within result.1.table
  unchanged : ∀ e, result.2 = some e → result.1 = w

variable {w : Workspace}

theorem Sound.start : start.Sound where
  coherent := coherent_empty
  rooted := .nil
  fits _ := ⟨trivial, fun _ member => by cases member⟩

theorem Sound.setStack (sound : w.Sound) (i : Nat) (fits : s.Fits w.table) :
    (w.setStack i s).Sound where
  coherent := sound.coherent
  rooted := sound.rooted
  fits j := by
    dsimp only [Workspace.setStack]
    split
    · exact fits
    · exact sound.fits j

theorem Sound.setTable (sound : w.Sound) (coherent : t.Coherent) (rooted : Rooted t.outline)
    (within : w.table.Within t) : Sound { w with table := t } :=
  ⟨coherent, rooted, fun i => (sound.fits i).within within⟩

theorem Sound.declares (sound : w.Sound) {b : Binding} (declares : w.table.Declares t scope ref b) :
    Sound { w with table := t } ∧ w.table.Within t := by
  have within := declares.within sound.coherent
  exact ⟨sound.setTable declares.coherent (declares.outline ▸ sound.rooted) within, within⟩

theorem Advances.settle (sound : w.Sound) {α : Type} {x : Except ScopeError α} {f : α → Workspace}
    (done : ∀ a, x = .ok a → (f a).Sound ∧ w.table.Within (f a).table) :
    w.Advances (w.settle (x.map f)) := by
  cases x with
  | error e => exact ⟨sound, .refl _, fun _ _ => rfl⟩
  | ok a =>
    obtain ⟨sound', within⟩ := done a rfl
    exact ⟨sound', within, fun _ failed => by cases failed⟩

theorem Sound.perform (sound : w.Sound) (op : Operation) : w.Advances (w.perform op) := by
  have same := Within.refl w.table
  cases op with
  | enter kind id parent =>
    refine .settle sound fun t entered => ?_
    have within := Within.enter entered
    exact ⟨sound.setTable (sound.coherent.enter entered) (sound.rooted.enter entered) within, within⟩
  | declare scope name mutable type =>
    exact .settle sound fun done declared =>
      sound.declares (sound.coherent.declares_of_declare declared)
  | bind scope name storage =>
    refine .settle sound fun t bound => ?_
    obtain ⟨ref, b, declares⟩ := sound.coherent.declares_of_bind bound
    exact sound.declares declares
  | push i kind id =>
    refine .settle sound fun done pushed => ?_
    obtain ⟨s, t⟩ := done
    obtain ⟨entered, rfl⟩ := Stack.push_eq_ok.mp pushed
    have within := Within.enter entered
    have sound' := sound.setTable (sound.coherent.enter entered) (sound.rooted.enter entered) within
    exact ⟨sound'.setStack i ((sound.fits i).push sound.coherent entered), within⟩
  | pop i id =>
    refine .settle sound fun s popped => ?_
    obtain ⟨frame, frames, -⟩ := Stack.pop_eq_ok popped
    have fits := sound.fits i
    rw [show w.stackOf i = ⟨[frame] ++ s.frames⟩ from congrArg Stack.mk frames] at fits
    exact ⟨sound.setStack i fits.suffix, same⟩
  | unwind i depth =>
    have fits := sound.fits i
    rw [show w.stackOf i = ⟨_ ++ _⟩ from congrArg Stack.mk (take_append_drop ((w.stackOf i).frames.length - depth.toNat) (w.stackOf i).frames).symm] at fits
    exact ⟨sound.setStack i fits.suffix, same, fun _ failed => by cases failed⟩
  | reach i name mutable type storage =>
    rcases (sound.fits i).declare_cases sound.coherent name mutable type storage with
      ⟨e, failed⟩ | ⟨t, s, ref, scope, done, declares, fits⟩
    · simp only [Workspace.perform, failed]
      exact ⟨sound, same, fun _ _ => rfl⟩
    · simp only [Workspace.perform, done]
      obtain ⟨sound', within⟩ := sound.declares declares
      exact ⟨sound'.setStack i fits, within, fun _ failed => by cases failed⟩

theorem Sound.performAll (sound : w.Sound) (ops : List Operation) :
    (w.performAll ops).Sound ∧ w.table.Within (w.performAll ops).table := by
  induction ops generalizing w with
  | nil => exact ⟨sound, .refl _⟩
  | cons op ops ih =>
    have advances := sound.perform op
    obtain ⟨sound', within⟩ := ih advances.sound
    exact ⟨sound', advances.within.trans within⟩

end Workspace

/-- Scopes are kept under their own numbers, inside scopes that exist and never around themselves,
and each name of a scope leads to its one binding. -/
structure Table.Integral (t : Table) : Prop where
  keys : t.keys.Nodup
  keyed : ∀ key s, t.scope? key = some s → s.id = key
  parents : ∀ key s, t.scope? key = some s → s.parent ≠ 0 → (t.scope? s.parent).isSome
  lines : ∀ key s, t.scope? key = some s →
    ∃ keys, t.Line key keys ∧ keys.Nodup ∧ keys.length ≤ t.size
  names : ∀ key s, t.scope? key = some s → (s.bindings.map Binding.name).Nodup ∧ s.Indexed
  faults : ∀ fault, fault ∈ t.faults ↔ t.Misfits fault
  resolves : ∀ key name ref, t.resolve? key name = some ref ↔
    ∃ inner outer, t.Line key (inner ++ ref.scope :: outer) ∧
      (∃ b, t.binding? ref = some b ∧ b.name = name) ∧
      ∀ nearer ∈ inner, ∀ i b, t.binding? ⟨nearer, i⟩ = some b → b.name ≠ name

theorem Scope.Indexed.nodup {s : Scope} (indexed : s.Indexed) :
    (s.bindings.map Binding.name).Nodup := by
  refine pairwise_map.mpr (pairwise_iff_getElem.mpr ?_)
  intro i j iBound jBound before same
  have first := (indexed _ i).mpr ⟨_, List.getElem?_eq_getElem iBound, same⟩
  have second := (indexed _ j).mpr ⟨_, List.getElem?_eq_getElem jBound, rfl⟩
  cases first.symm.trans second
  exact Nat.lt_irrefl _ before

namespace Table

theorem Coherent.find?_eq_none (coherent : t.Coherent) :
    t.find? key name = none ↔ ∀ i b, t.binding? ⟨key, i⟩ = some b → b.name ≠ name := by
  constructor
  · rintro missing i b binding rfl
    rw [coherent.find?_unique rfl binding] at missing
    cases missing
  · intro unnamed
    cases found : t.find? key name with
    | none => rfl
    | some ref =>
      obtain ⟨rfl, b, binding, named⟩ := coherent.find?_eq_some.mp found
      exact absurd named (unnamed ref.position b binding)

theorem Line.recorded {keys : List NodeId} (line : t.Line key keys) (numbered : key ≠ 0) :
    (t.scope? key).isSome := by
  cases line with
  | outside => exact absurd rfl numbered
  | inside _ recorded => exact isSome_of_mem recorded

theorem resolve?_of_line (rooted : Rooted t.outline) {keys : List NodeId} (line : t.Line key keys)
    (name : Text) : t.resolve? key name = keys.findSome? fun k => t.find? k name := by
  refine line.resolveWithin ?_ name
  cases line with
  | outside => exact Nat.succ_pos _
  | inside numbered recorded around =>
    obtain ⟨-, keys', line', bound⟩ := line_around rooted recorded
    rw [around.unique line', length_cons]
    exact Nat.succ_lt_succ bound

theorem resolve?_eq_some_iff (coherent : t.Coherent) (rooted : Rooted t.outline) :
    t.resolve? key name = some ref ↔
      ∃ inner outer, t.Line key (inner ++ ref.scope :: outer) ∧
        (∃ b, t.binding? ref = some b ∧ b.name = name) ∧
        ∀ nearer ∈ inner, ∀ i b, t.binding? ⟨nearer, i⟩ = some b → b.name ≠ name := by
  constructor
  · intro found
    obtain ⟨keys, line⟩ : ∃ keys, t.Line key keys := by
      by_cases zero : key = 0
      · exact ⟨[], zero ▸ .outside⟩
      · cases recorded : t.scope? key with
        | none => simp [resolve?, resolveWithin, zero, recorded] at found
        | some s =>
          obtain ⟨-, keys, line, -⟩ := line_around rooted recorded
          exact ⟨key :: keys, .inside zero recorded line⟩
    rw [resolve?_of_line rooted line, List.findSome?_eq_some_iff] at found
    obtain ⟨inner, scope, outer, rfl, here, nearer⟩ := found
    obtain ⟨rfl, bound⟩ := coherent.find?_eq_some.mp here
    exact ⟨inner, outer, line, bound, fun k member =>
      coherent.find?_eq_none.mp (nearer k member)⟩
  · rintro ⟨inner, outer, line, bound, nearer⟩
    rw [resolve?_of_line rooted line, List.findSome?_eq_some_iff]
    exact ⟨inner, ref.scope, outer, rfl, coherent.find?_eq_some.mpr ⟨rfl, bound⟩, fun k member =>
      coherent.find?_eq_none.mpr (nearer k member)⟩

theorem integral (coherent : t.Coherent) (rooted : Rooted t.outline) : t.Integral where
  keys := outline_keys t ▸ rooted.nodup
  keyed := coherent.keyed
  parents key s recorded nested := by
    obtain ⟨-, keys, line, -⟩ := line_around rooted recorded
    exact line.recorded nested
  lines key s recorded := by
    obtain ⟨numbered, keys, around, bound⟩ := line_around rooted recorded
    have line := Line.inside numbered recorded around
    exact ⟨key :: keys, line, line.nodup, bound⟩
  names key s recorded :=
    ⟨Scope.Indexed.nodup (coherent.indexed key s recorded), coherent.indexed key s recorded⟩
  faults _ := mem_faults_iff rooted coherent
  resolves _ _ _ := resolve?_eq_some_iff coherent rooted

end Table

/-- Whatever was done, the table is sound, scopes keep their kinds and parents whatever is done next,
and an operation that fails leaves table and stacks as they were. -/
theorem records_stay_integral (ops : List Operation) :
    let w := Workspace.start.performAll ops
    w.table.Integral ∧
    (∀ more key s, w.table.scope? key = some s →
      ∃ s', (w.performAll more).table.scope? key = some s' ∧ s'.kind = s.kind ∧
        s'.parent = s.parent) ∧
    ∀ op e, (w.perform op).2 = some e → (w.perform op).1 = w := by
  intro w
  have sound : w.Sound := (Workspace.Sound.start.performAll ops).1
  refine ⟨integral sound.coherent sound.rooted, fun more => ?_, fun op => ?_⟩
  · exact (sound.performAll more).2.scopes
  · exact (sound.perform op).unchanged

/-- Whatever was done, the frames of a stack are the scopes from its innermost one outwards, and
what it finds for a name is the current record of the scope found. -/
theorem stacks_follow_table (ops : List Operation) (i : Nat) :
    let t := (Workspace.start.performAll ops).table
    let s := (Workspace.start.performAll ops).stackOf i
    t.Line (s.topId t) (s.frames.map Frame.scope) ∧
    (∀ inner frame outer, s.frames = inner ++ frame :: outer →
      ∃ record, t.scope? frame.scope = some record ∧
        record.parent = (outer.head?.map Frame.scope).getD 0) ∧
    ∀ name scope ref, s.resolve? name = some (scope, ref) →
      t.find? scope name = some ref ∧ (∃ b, t.binding? ref = some b ∧ b.name = name) ∧
      ∃ inner frame outer, s.frames = inner ++ frame :: outer ∧ frame.scope = scope ∧
        (∀ nearer ∈ inner, nearer.visible.lookup name = none) ∧
        ∃ found, t.resolve? (s.topId t) name = some found ∧
          found.scope ∈ (inner ++ [frame]).map Frame.scope := by
  intro t s
  have sound := (Workspace.Sound.start.performAll ops).1
  have fits : s.Fits t := sound.fits i
  have line : t.Line (s.topId t) (s.frames.map Frame.scope) := by
    rw [fits.chained.topId_eq sound.coherent]
    exact fits.chained.line
  refine ⟨line, ?_, ?_⟩
  · intro inner frame outer frames
    have chained := fits.chained
    rw [frames] at chained
    exact chained.suffix.2.1
  · intro name scope ref found
    obtain ⟨inner, frame, outer, frames, rfl, visible, nearer⟩ := Stack.find?_eq_some found
    have here := fits.visible frame (frames ▸ by simp) name ref visible
    refine ⟨here, (sound.coherent.find?_eq_some.mp here).2, inner, frame, outer, frames, rfl, nearer,
      ?_⟩
    have near : ((inner ++ [frame]).map Frame.scope).findSome? (fun k => t.find? k name) ≠ none := by
      intro missing
      have nothing := List.findSome?_eq_none_iff.mp missing frame.scope (by simp)
      cases here.symm.trans nothing
    obtain ⟨found', nearest⟩ := ne_none_iff_exists'.mp near
    obtain ⟨key, member, atKey⟩ := exists_of_findSome?_eq_some nearest
    refine ⟨found', ?_, scope_of_find? atKey ▸ member⟩
    rw [resolve?_of_line sound.rooted line, frames, append_cons, map_append,
      List.findSome?_append, nearest, some_or]

end MiddleEnd.Scoping
