import MiddleEnd.Proofs.Scoping.Lexical
import MiddleEnd.Proofs.Scoping.Records

/-!
A stack of open scopes that follows the lexical environment.
-/

namespace MiddleEnd.Scoping

open List Option

variable {id : NodeId}
variable {P : BindingRef → Binding → Declared → Prop}

/-- An open scope shows the declared names and no other, each with its recorded binding. -/
structure Frame.Tracks (P : BindingRef → Binding → Declared → Prop) (t : Table) (frame : Frame)
    (names : List (Text × Declared)) : Prop where
  recorded : (t.scope? frame.scope).isSome
  invisible : ∀ name, names.lookup name = none → frame.visible.lookup name = none
  visible : ∀ name d, names.lookup name = some d →
    ∃ ref b, frame.visible.lookup name = some ref ∧ t.find? frame.scope name = some ref ∧
      t.binding? ref = some b ∧ P ref b d

/-- The frames show the scopes of the environment, and no two of them the same scope. -/
def Tracks (P : BindingRef → Binding → Declared → Prop) (t : Table) : List Frame → Env → Prop
  | [], [] => True
  | frame :: outer, names :: env =>
    frame.Tracks P t names ∧ frame.scope ∉ outer.map Frame.scope ∧ Tracks P t outer env
  | _, _ => False

variable {t t' : Table} {name : Text} {frames : List Frame} {env : Env}

theorem Table.scope_of_find? (found : t.find? key name = some ref) : ref.scope = key := by
  obtain ⟨s, -, found⟩ := bind_eq_some_iff.mp found
  obtain ⟨position, -, rfl⟩ := map_eq_some_iff.mp found
  rfl

theorem Frame.Tracks.congr {frame : Frame} (tracks : frame.Tracks P t names)
    (same : t'.scope? frame.scope = t.scope? frame.scope) : frame.Tracks P t' names where
  recorded := same ▸ tracks.recorded
  invisible := tracks.invisible
  visible name d declared := by
    obtain ⟨ref, b, visible, found, binding, holds⟩ := tracks.visible name d declared
    refine ⟨ref, b, visible, ?_, ?_, holds⟩
    · simpa only [Table.find?, same] using found
    · simpa only [Table.binding?, Table.scope_of_find? found, same] using binding

theorem Tracks.congr (tracks : Tracks P t frames env)
    (same : ∀ key ∈ frames.map Frame.scope, t'.scope? key = t.scope? key) :
    Tracks P t' frames env := by
  induction frames generalizing env with
  | nil => cases env <;> exact tracks
  | cons frame outer ih =>
    cases env with
    | nil => exact tracks
    | cons names env =>
      exact ⟨tracks.1.congr (same _ (by simp)), tracks.2.1,
        ih tracks.2.2 fun key member => same key (by simp [member])⟩

theorem Tracks.recorded (tracks : Tracks P t frames env) :
    ∀ key ∈ frames.map Frame.scope, (t.scope? key).isSome := by
  induction frames generalizing env with
  | nil => simp
  | cons frame outer ih =>
    cases env with
    | nil => exact tracks.elim
    | cons names env =>
      simp only [map_cons, mem_cons, forall_eq_or_imp]
      exact ⟨tracks.1.recorded, ih tracks.2.2⟩

theorem Tracks.resolve_some (tracks : Tracks P t frames env) (means : env.find? name = some d) :
    ∃ scope ref b, Stack.find? name frames = some (scope, ref) ∧ t.binding? ref = some b ∧
      P ref b d := by
  induction frames generalizing env with
  | nil =>
    cases env with
    | nil => cases means
    | cons names env => exact tracks.elim
  | cons frame outer ih =>
    cases env with
    | nil => exact tracks.elim
    | cons names env =>
      rw [Env.find?_cons] at means
      cases declared : names.lookup name with
      | some d' =>
        rw [declared, some_or] at means
        cases means
        obtain ⟨ref, b, visible, -, binding, holds⟩ := tracks.1.visible name d declared
        exact ⟨frame.scope, ref, b, by simp [Stack.find?, visible], binding, holds⟩
      | none =>
        rw [declared, none_or] at means
        simpa [Stack.find?, tracks.1.invisible name declared] using ih tracks.2.2 means

theorem Tracks.resolve_none (tracks : Tracks P t frames env) (meaningless : env.find? name = none) :
    Stack.find? name frames = none := by
  induction frames generalizing env with
  | nil => rfl
  | cons frame outer ih =>
    cases env with
    | nil => exact tracks.elim
    | cons names env =>
      rw [Env.find?_cons, or_eq_none_iff] at meaningless
      simpa [Stack.find?, tracks.1.invisible name meaningless.1] using
        ih tracks.2.2 meaningless.2

theorem Tracks.declare {t t' : Table} {frame : Frame} {outer : List Frame}
    {names : List (Text × Declared)} {env : Env} {ref : BindingRef} {b : Binding} {d : Declared}
    (tracks : Tracks P t (frame :: outer) (names :: env))
    (declares : t.Declares t' frame.scope ref b) (holds : P ref b d) :
    Tracks P t' ({ frame with visible := (b.name, ref) :: frame.visible } :: outer)
      (((b.name, d) :: names) :: env) := by
  refine ⟨⟨declares.recorded, ?_, ?_⟩, tracks.2.1, tracks.2.2.congr fun key member =>
    declares.others key (ne_of_mem_of_not_mem member tracks.2.1)⟩
  · intro name undeclared
    rw [lookup_cons] at undeclared ⊢
    split at undeclared
    · cases undeclared
    · exact tracks.1.invisible name undeclared
  · intro name d' declared
    have foundNow := declares.found name
    rw [lookup_cons] at declared
    split at declared
    · next same =>
      cases declared
      have same := eq_of_beq same
      rw [if_pos same] at foundNow
      exact ⟨ref, b, by simp [same], foundNow, by rw [declares.binding, if_pos rfl], holds⟩
    · next other =>
      obtain ⟨ref', b', visible, found, binding, holds'⟩ := tracks.1.visible name d' declared
      rw [if_neg (ne_of_beq_false other), found] at foundNow
      have distinct : ref' ≠ ref := by
        rintro rfl
        obtain ⟨-, b'', binding', named⟩ := declares.coherent.find?_eq_some.mp foundNow
        rw [declares.binding, if_pos rfl] at binding'
        cases binding'
        exact ne_of_beq_false other named.symm
      refine ⟨ref', b', by simp [lookup_cons, other, visible], foundNow, ?_, holds'⟩
      rw [declares.binding, if_neg distinct, binding]

theorem Tracks.push (tracks : Tracks P t frames env) (closed : id ∉ frames.map Frame.scope)
    (entered : t.enter kind id parent = .ok t') : Tracks P t' (⟨id, []⟩ :: frames) ([] :: env) := by
  obtain ⟨recorded, others⟩ := Table.scope?_enter entered
  refine ⟨⟨recorded, by simp, by simp⟩, closed, tracks.congr fun key member => ?_⟩
  exact others key (tracks.recorded key member)

namespace Stack

theorem push_eq_ok {s : Stack} :
    s.push t kind id = .ok (s', t') ↔
      t.enter kind id (s.topId t) = .ok t' ∧ s' = ⟨⟨id, []⟩ :: s.frames⟩ := by
  unfold push
  simp only [bind_eq_ok, Except.ok.injEq, Prod.mk.injEq]
  constructor
  · rintro ⟨_, entered, rfl, rfl⟩
    exact ⟨entered, rfl⟩
  · rintro ⟨entered, rfl⟩
    exact ⟨t', entered, rfl, rfl⟩

theorem find?_eq_some (found : find? name frames = some (scope, ref)) :
    ∃ inner frame outer, frames = inner ++ frame :: outer ∧ frame.scope = scope ∧
      frame.visible.lookup name = some ref ∧
      ∀ nearer ∈ inner, nearer.visible.lookup name = none := by
  induction frames with
  | nil => cases found
  | cons frame outer ih =>
    rw [find?] at found
    split at found
    · next visible =>
      cases found
      exact ⟨[], frame, outer, rfl, rfl, visible, forall_mem_nil _⟩
    · next invisible =>
      obtain ⟨inner, frame', outer', rfl, here, visible, nearer⟩ := ih found
      exact ⟨frame :: inner, frame', outer', rfl, here, visible,
        forall_mem_cons.mpr ⟨invisible, nearer⟩⟩

theorem pop_eq_ok {s : Stack} (popped : s.pop t id = .ok s') :
    ∃ frame, s.frames = frame :: s'.frames ∧ s.topId t = id := by
  unfold pop at popped
  split at popped
  · cases popped
  · next frame outer frames =>
    split at popped
    · next top =>
      cases popped
      exact ⟨frame, frames, top⟩
    · cases popped

theorem pop_cons (coherent : t.Coherent) (outer : List Frame)
    (recorded : (t.scope? frame.scope).isSome) :
    pop ⟨frame :: outer⟩ t frame.scope = .ok ⟨outer⟩ := by
  simp [pop, topId_cons coherent outer recorded]

end Stack

end MiddleEnd.Scoping
