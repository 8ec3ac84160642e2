import MiddleEnd.Proofs.Control
import MiddleEnd.Scoping.Stack

/-!
Scope records. A coherent table keeps each record under its own number with an index that leads to
exactly its bindings.
-/

namespace MiddleEnd.Scoping

open List

variable {name : Text}

namespace Scope

/-- The index leads from each name to the one binding that has it. -/
def Indexed (s : Scope) : Prop :=
  ∀ name position, s.position? name = some position ↔
    ∃ b, s.bindings[position]? = some b ∧ b.name = name

theorem indexed_empty (kind : ScopeKind) (id parent : NodeId) :
    (Scope.empty kind id parent).Indexed := by
  intro name position
  simp [empty, position?]

theorem position?_push (s : Scope) (b : Binding) (name : Text) :
    (s.push b).position? name =
      if name = b.name then some s.bindings.length else s.position? name := by
  unfold position? push
  rw [lookup_cons]
  by_cases same : name = b.name
  · simp [same]
  · simp [same, beq_eq_false_iff_ne.mpr same]

theorem Indexed.push {s : Scope} (indexed : s.Indexed) (fresh : s.position? b.name = none) :
    (s.push b).Indexed := by
  intro name position
  have absent : ∀ other : Binding, s.bindings[position]? = some other → other.name ≠ b.name := by
    intro other found same
    rw [(indexed b.name position).mpr ⟨other, found, same⟩] at fresh
    cases fresh
  have bindings : (s.push b).bindings = s.bindings ++ [b] := rfl
  rw [position?_push, bindings]
  by_cases same : name = b.name
  · subst same
    simp only [if_true, Option.some.injEq]
    constructor
    · rintro rfl
      exact ⟨b, by simp, rfl⟩
    · rintro ⟨other, found, same⟩
      rcases Nat.lt_trichotomy position s.bindings.length with before | here | behind
      · rw [List.getElem?_append_left before] at found
        exact absurd same (absent other found)
      · exact here.symm
      · rw [List.getElem?_eq_none (by simp; omega)] at found
        cases found
  · rw [if_neg same, indexed name position]
    constructor
    · rintro ⟨other, found, named⟩
      refine ⟨other, ?_, named⟩
      rwa [List.getElem?_append_left (List.getElem?_eq_some_iff.mp found).1]
    · rintro ⟨other, found, named⟩
      rcases Nat.lt_trichotomy position s.bindings.length with before | here | behind
      · rw [List.getElem?_append_left before] at found
        exact ⟨other, found, named⟩
      · rw [here] at found
        simp only [List.getElem?_concat_length, Option.some.injEq] at found
        exact absurd (found ▸ named).symm same
      · rw [List.getElem?_eq_none (by simp; omega)] at found
        cases found

theorem Indexed.modifyBinding {s : Scope} (indexed : s.Indexed) (position : Nat)
    {change : Binding → Binding} (keeps : ∀ b, (change b).name = b.name) :
    (s.modifyBinding position change).Indexed := by
  intro name other
  have same : (s.modifyBinding position change).position? name = s.position? name := rfl
  rw [same, indexed name other]
  simp only [Scope.modifyBinding, List.getElem?_modify]
  split
  · cases s.bindings[other]? <;> simp [keeps]
  · simp

end Scope

namespace Table

theorem scope?_modify (t : Table) (key : NodeId) (change : Scope → Scope) (other : NodeId) :
    (t.modify key change).scope? other =
      if other = key then (t.scope? other).map change else t.scope? other := by
  unfold scope? modify
  induction t.scopes with
  | nil => simp
  | cons entry rest ih =>
    obtain ⟨k, s⟩ := entry
    by_cases here : other = k
    · subst here
      by_cases same : other = key <;> simp [same]
    · have skip : (other == k) = false := beq_eq_false_iff_ne.mpr here
      by_cases same : k = key
      · simpa [same, lookup_cons, same ▸ skip] using ih
      · simpa [same, lookup_cons, skip] using ih

theorem scope?_append (t : Table) (id : NodeId) (s : Scope) (other : NodeId) :
    (Table.mk (t.scopes ++ [(id, s)])).scope? other =
      (t.scope? other).or (if other = id then some s else none) := by
  unfold scope?
  rw [lookup_append]
  by_cases same : other = id
  · simp [same]
  · simp [same, lookup_cons, beq_eq_false_iff_ne.mpr same]

variable {t t' : Table} {kind : ScopeKind} {id parent scope : NodeId} {ref : BindingRef}
  {b : Binding}

theorem enter_cases (entered : t.enter kind id parent = .ok t') :
    id ≠ 0 ∧
      ((∃ s, t.scope? id = some s ∧ s.kind = kind ∧ s.parent = parent ∧ t' = t) ∨
        (t.scope? id = none ∧ (parent = 0 ∨ (t.scope? parent).isSome) ∧
          t' = ⟨t.scopes ++ [(id, .empty kind id parent)]⟩)) := by
  unfold enter at entered
  split at entered
  · cases entered
  · next numbered =>
    refine ⟨numbered, ?_⟩
    split at entered
    · next s found =>
      split at entered
      · next agrees =>
        cases entered
        simp only [Bool.and_eq_true, decide_eq_true_eq] at agrees
        exact .inl ⟨s, found, agrees.1, agrees.2, rfl⟩
      · cases entered
    · next missing =>
      split at entered
      · next known =>
        cases entered
        simp only [Bool.or_eq_true, decide_eq_true_eq] at known
        exact .inr ⟨missing, known, rfl⟩
      · cases entered

theorem enter_fresh {t : Table} {kind : ScopeKind} {id parent : NodeId} (numbered : id ≠ 0)
    (missing : t.scope? id = none) (known : parent = 0 ∨ (t.scope? parent).isSome) :
    t.enter kind id parent = .ok ⟨t.scopes ++ [(id, .empty kind id parent)]⟩ := by
  simp [enter, numbered, missing, known]

/-- Every record stands under its own number, with an index that fits its bindings. -/
structure Coherent (t : Table) : Prop where
  keyed : ∀ key s, t.scope? key = some s → s.id = key
  indexed : ∀ key s, t.scope? key = some s → s.Indexed

theorem coherent_empty : Table.empty.Coherent :=
  ⟨by simp [Table.empty, scope?], by simp [Table.empty, scope?]⟩

theorem scope?_enter (entered : t.enter kind id parent = .ok t') :
    (t'.scope? id).isSome ∧
      ∀ other, (t.scope? other).isSome → t'.scope? other = t.scope? other := by
  obtain ⟨-, ⟨s, found, -, -, rfl⟩ | ⟨missing, -, rfl⟩⟩ := enter_cases entered
  · exact ⟨by simp [found], fun _ _ => rfl⟩
  · refine ⟨by simp [scope?_append], fun other known => ?_⟩
    rw [scope?_append, Option.or_of_isSome known]

theorem Coherent.enter (coherent : t.Coherent) (entered : t.enter kind id parent = .ok t') :
    t'.Coherent := by
  obtain ⟨-, ⟨-, -, -, -, rfl⟩ | ⟨missing, -, rfl⟩⟩ := enter_cases entered
  · exact coherent
  · have origin : ∀ key s, (Table.mk (t.scopes ++ [(id, .empty kind id parent)])).scope? key =
        some s → t.scope? key = some s ∨ (key = id ∧ s = .empty kind id parent) := by
      intro key s found
      rw [scope?_append] at found
      cases earlier : t.scope? key with
      | some s' =>
        rw [earlier] at found
        exact .inl found
      | none =>
        rw [earlier, Option.none_or] at found
        split at found
        · next same =>
          cases found
          exact .inr ⟨same, rfl⟩
        · cases found
    constructor
    · intro key s found
      rcases origin key s found with earlier | ⟨rfl, rfl⟩
      · exact coherent.keyed key s earlier
      · rfl
    · intro key s found
      rcases origin key s found with earlier | ⟨rfl, rfl⟩
      · exact coherent.indexed key s earlier
      · exact Scope.indexed_empty kind key parent

theorem Coherent.modify (coherent : t.Coherent) (key : NodeId) {change : Scope → Scope}
    (id : ∀ s, (change s).id = s.id) (indexed : ∀ s, t.scope? key = some s → (change s).Indexed) :
    (t.modify key change).Coherent := by
  constructor
  · intro other s found
    rw [scope?_modify] at found
    split at found
    · next same =>
      obtain ⟨s', earlier, rfl⟩ := Option.map_eq_some_iff.mp found
      rw [id]
      exact coherent.keyed other s' earlier
    · exact coherent.keyed other s found
  · intro other s found
    rw [scope?_modify] at found
    split at found
    · next same =>
      obtain ⟨s', earlier, rfl⟩ := Option.map_eq_some_iff.mp found
      exact indexed s' (same ▸ earlier)
    · exact coherent.indexed other s found

theorem Coherent.modifyBinding (coherent : t.Coherent) (ref : BindingRef)
    {change : Binding → Binding} (keeps : ∀ b, (change b).name = b.name) :
    (t.modifyBinding ref change).Coherent :=
  coherent.modify ref.scope (fun _ => rfl) fun s found =>
    (coherent.indexed ref.scope s found).modifyBinding ref.position keeps

theorem binding?_modifyBinding (t : Table) (ref : BindingRef) (change : Binding → Binding)
    (other : BindingRef) :
    (t.modifyBinding ref change).binding? other =
      if other = ref then (t.binding? other).map change else t.binding? other := by
  obtain ⟨key, position⟩ := ref
  obtain ⟨key', position'⟩ := other
  simp only [binding?, modifyBinding, scope?_modify, BindingRef.mk.injEq]
  by_cases same : key' = key
  · cases t.scope? key' with
    | none => simp
    | some s =>
      simp only [same, Scope.modifyBinding, List.getElem?_modify, true_and, Option.map_some,
        Option.bind_some, if_true]
      by_cases here : position = position'
      · simp [here]
      · simp [here, Ne.symm here]
  · simp [same]

theorem find?_modifyBinding (t : Table) (ref : BindingRef) (change : Binding → Binding)
    (key : NodeId) (name : Text) :
    (t.modifyBinding ref change).find? key name = t.find? key name := by
  simp only [find?, modifyBinding, scope?_modify]
  split
  · cases t.scope? key <;> rfl
  · rfl

theorem Coherent.find?_eq_some (coherent : t.Coherent) :
    t.find? key name = some ref ↔
      ref.scope = key ∧ ∃ b, t.binding? ref = some b ∧ b.name = name := by
  obtain ⟨scope, position⟩ := ref
  simp only [find?, binding?]
  constructor
  · intro found
    obtain ⟨s, recorded, found⟩ := Option.bind_eq_some_iff.mp found
    obtain ⟨place, indexed, same⟩ := Option.map_eq_some_iff.mp found
    cases same
    obtain ⟨b, found, named⟩ := (coherent.indexed key s recorded name position).mp indexed
    exact ⟨rfl, b, by simp [recorded, found], named⟩
  · rintro ⟨rfl, b, found, named⟩
    obtain ⟨s, recorded, found⟩ := Option.bind_eq_some_iff.mp found
    have indexed := (coherent.indexed scope s recorded name position).mpr ⟨b, found, named⟩
    simp [recorded, indexed]

def outline (t : Table) : List (NodeId × ScopeKind × NodeId) :=
  t.scopes.map fun (key, s) => (key, s.kind, s.parent)

theorem outline_modify (t : Table) (key : NodeId) {change : Scope → Scope}
    (kind : ∀ s, (change s).kind = s.kind) (parent : ∀ s, (change s).parent = s.parent) :
    (t.modify key change).outline = t.outline := by
  simp only [outline, modify, map_map]
  apply map_congr_left
  rintro ⟨k, s⟩ -
  simp only [Function.comp]
  split
  · simp only [kind, parent]
  · rfl

@[simp] theorem outline_modifyBinding (t : Table) (ref : BindingRef) (change : Binding → Binding) :
    (t.modifyBinding ref change).outline = t.outline :=
  t.outline_modify ref.scope (fun _ => rfl) fun _ => rfl

/-- Table `t'` is `t` with binding `b` at place `ref` of a scope, instead of the one of the same
name there if there is one. -/
structure Declares (t t' : Table) (scope : NodeId) (ref : BindingRef) (b : Binding) : Prop where
  coherent : t'.Coherent
  outline : t'.outline = t.outline
  others : ∀ key, key ≠ scope → t'.scope? key = t.scope? key
  found : ∀ name, t'.find? scope name = if name = b.name then some ref else t.find? scope name
  binding : ∀ other, t'.binding? other = if other = ref then some b else t.binding? other
  fresh : t.find? scope b.name = none → t.binding? ref = none

theorem Coherent.declares_recorded (coherent : t.Coherent) (found : t.find? scope b.name = some ref)
    (binding : t.binding? ref = some b) : t.Declares t scope ref b where
  coherent := coherent
  outline := rfl
  others _ _ := rfl
  found name := by
    split
    · next same => rw [same, found]
    · rfl
  binding other := by
    split
    · next same => rw [same, binding]
    · rfl
  fresh missing := by
    rw [missing] at found
    cases found

theorem Coherent.declare {t : Table} (coherent : t.Coherent) {scope : NodeId} {name : Text}
    (recorded : (t.scope? scope).isSome) (missing : t.find? scope name = none) (mutable : Bool)
    (type : Ty) :
    ∃ t' ref, t.declare scope name mutable type = .ok (t', ref) ∧
      t.Declares t' scope ref ⟨name, mutable, type, Ir.noId⟩ := by
  obtain ⟨s, found⟩ := Option.isSome_iff_exists.mp recorded
  have unindexed : s.position? name = none := by simpa [find?, found] using missing
  refine ⟨t.modify scope fun s => s.push ⟨name, mutable, type, Ir.noId⟩,
    ⟨scope, s.bindings.length⟩, by simp only [Table.declare, found, unindexed], ?_⟩
  constructor
  case coherent =>
    refine coherent.modify scope (fun _ => rfl) fun s' found' => ?_
    cases found.symm.trans found'
    exact (coherent.indexed scope s found).push unindexed
  case outline => exact t.outline_modify scope (fun _ => rfl) fun _ => rfl
  case others =>
    intro key other
    rw [scope?_modify, if_neg other]
  case found =>
    intro other
    simp only [find?, scope?_modify, if_true, found, Option.map_some, Option.bind_some,
      Scope.position?_push]
    split <;> rfl
  case binding =>
    rintro ⟨key, position⟩
    simp only [binding?, scope?_modify, BindingRef.mk.injEq]
    by_cases same : key = scope
    · subst same
      simp only [found, Option.map_some, Option.bind_some, if_true, true_and, Scope.push,
        List.getElem?_append]
      by_cases here : position = s.bindings.length
      · simp [here]
      · rw [if_neg here]
        split
        · rfl
        · rw [List.getElem?_eq_none (by simp; omega), List.getElem?_eq_none (by omega)]
    · simp [same]
  case fresh =>
    intro _
    simp [binding?, found]

theorem Declares.place (declares : t.Declares t' scope ref b) : ref.scope = scope := by
  have found := declares.found b.name
  rw [if_pos rfl] at found
  exact (declares.coherent.find?_eq_some.mp found).1

theorem Declares.recorded (declares : t.Declares t' scope ref b) : (t'.scope? scope).isSome := by
  have found := declares.found b.name
  rw [if_pos rfl] at found
  obtain ⟨s, recorded, -⟩ := Option.bind_eq_some_iff.mp found
  simp [recorded]

theorem Declares.modifyBinding (declares : t.Declares t' scope ref b) (change : Binding → Binding)
    (keeps : ∀ b, (change b).name = b.name) :
    t.Declares (t'.modifyBinding ref change) scope ref (change b) where
  coherent := declares.coherent.modifyBinding ref keeps
  outline := by rw [outline_modifyBinding, declares.outline]
  others key other := by
    rw [Table.modifyBinding, scope?_modify, if_neg (declares.place ▸ other),
      declares.others key other]
  found name := by rw [find?_modifyBinding, declares.found, keeps]
  binding other := by
    rw [binding?_modifyBinding, declares.binding]
    split <;> rfl
  fresh missing := declares.fresh (keeps b ▸ missing)

theorem Declares.bind (declares : t.Declares t' scope ref b) (mutable : Bool) (type : Ty)
    (storage : Ir.LocalId) :
    ∃ t'', (t'.modifyBinding ref fun b => { b with mutable := mutable, type := type }).bind
        scope b.name storage = .ok t'' ∧
      t.Declares t'' scope ref ⟨b.name, mutable, type, storage⟩ := by
  have typed := declares.modifyBinding (fun b => { b with mutable := mutable, type := type })
    fun _ => rfl
  obtain ⟨s, recorded⟩ := Option.isSome_iff_exists.mp typed.recorded
  have found := typed.found b.name
  rw [if_pos rfl] at found
  refine ⟨_, ?_, typed.modifyBinding (fun b => { b with storage := storage }) fun _ => rfl⟩
  simp only [Table.bind, recorded, found]

end Table

namespace Stack

variable {t : Table} {frame : Frame}

theorem topId_cons (coherent : t.Coherent) (outer : List Frame)
    (recorded : (t.scope? frame.scope).isSome) : topId ⟨frame :: outer⟩ t = frame.scope := by
  obtain ⟨s, found⟩ := Option.isSome_iff_exists.mp recorded
  simp [topId, top?, found, coherent.keyed frame.scope s found]

theorem declare_visible (outer : List Frame) (visible : frame.visible.lookup name = some ref)
    (mutable : Bool) (type : Ty) (storage : Ir.LocalId) :
    declare ⟨frame :: outer⟩ t name mutable type storage =
      (t, .error (.problem ⟨.duplicate, name, 0, topId ⟨frame :: outer⟩ t⟩)) := by
  simp [declare, visible]

theorem declare_new (coherent : t.Coherent) (outer : List Frame)
    (recorded : (t.scope? frame.scope).isSome) (invisible : frame.visible.lookup name = none)
    (mutable : Bool) (type : Ty) (storage : Ir.LocalId) :
    ∃ t' ref, declare ⟨frame :: outer⟩ t name mutable type storage =
        (t', .ok (⟨{ frame with visible := (name, ref) :: frame.visible } :: outer⟩, ref)) ∧
      t.Declares t' frame.scope ref ⟨name, mutable, type, storage⟩ := by
  have top := topId_cons coherent outer recorded
  cases found : t.find? frame.scope name with
  | some ref =>
    obtain ⟨-, b, binding, rfl⟩ := coherent.find?_eq_some.mp found
    obtain ⟨t', bound, declares⟩ :=
      (coherent.declares_recorded found binding).bind mutable type storage
    exact ⟨t', ref, by simp only [declare, invisible, top, found, bound], declares⟩
  | none =>
    obtain ⟨t₁, ref, recordedNow, new⟩ := coherent.declare recorded found mutable type
    obtain ⟨t', bound, declares⟩ := new.bind mutable type storage
    exact ⟨t', ref, by simp only [declare, invisible, top, found, recordedNow, bound], declares⟩

end Stack

end MiddleEnd.Scoping
