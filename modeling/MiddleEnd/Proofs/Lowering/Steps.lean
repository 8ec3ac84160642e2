import MiddleEnd.Proofs.Lowering.Emission
import MiddleEnd.Proofs.Scoping.Tracking

/-!
The single steps of lowering keep the open scopes in line with the lexical environment.
-/

namespace MiddleEnd.Lowering

open Scoping (Binding BindingRef Frame ScopeKind Stack Table Tracks)

variable {kind : ScopeKind}
variable {α β : Type} {st st' : State} {id : NodeId} {name : Text}

theorem bind_run_eq_ok {f : α → LowerM β} :
    (x >>= f) st = .ok b st' ↔ ∃ a middle, x st = .ok a middle ∧ f a middle = .ok b st' := by
  change EStateM.bind x f st = .ok b st' ↔ _
  unfold EStateM.bind
  cases x st with
  | ok a middle =>
    constructor
    · exact fun ran => ⟨a, middle, rfl, ran⟩
    · rintro ⟨_, _, same, ran⟩
      cases same
      exact ran
  | error e middle =>
    constructor
    · exact fun ran => nomatch ran
    · rintro ⟨_, _, same, _⟩
      cases same

theorem stmtList_cons (ran : stmtList (s :: rest) st = .ok () st') :
    ∃ middle, stmt s st = .ok () middle ∧ stmtList rest middle = .ok () st' := by
  simp only [stmtList] at ran
  obtain ⟨_, middle, ranHead, ranRest⟩ := bind_run_eq_ok.mp ran
  exact ⟨middle, ranHead, ranRest⟩

def State.scopes (st : State) : List NodeId := st.stack.frames.map Frame.scope

/-- A binding with storage leads to the slot of its declaration. -/
def Stores (slots : List NodeId) (_ : BindingRef) (b : Binding) (d : Declared) : Prop :=
  0 ≤ b.storage → slots[b.storage.toNat]? = some d.node

/-- The open scopes show the environment. -/
structure State.Follows (slots : List NodeId) (env : Env) (st : State) : Prop where
  coherent : st.table.Coherent
  tracks : Tracks (Stores slots) st.table st.stack.frames env

theorem isLive_run (st : State) : isLive st = .ok st.builder.place?.isSome st := by
  have same : (!st.builder.isTerminated) = st.builder.place?.isSome := by
    rw [st.builder.isTerminated_eq]
    cases st.builder.place? <;> rfl
  rw [← same]
  rfl

theorem produce_run (request : Ir.Builder → Ir.Builder × α) (st : State) :
    produce request st =
      .ok (request st.builder).2 { st with builder := (request st.builder).1 } := rfl

theorem isLive_bind (rest : Bool → LowerM α) (st : State) :
    (isLive >>= rest) st = rest st.builder.place?.isSome st := by
  change EStateM.bind isLive rest st = _
  rw [EStateM.bind, isLive_run]

theorem build_bind (change : Ir.Builder → Ir.Builder) (rest : Unit → LowerM α) (st : State) :
    (build change >>= rest) st = rest () { st with builder := change st.builder } := rfl

theorem produce_bind (request : Ir.Builder → Ir.Builder × α) (rest : α → LowerM β) (st : State) :
    (produce request >>= rest) st =
      rest (request st.builder).2 { st with builder := (request st.builder).1 } := rfl

theorem pure_bind_run (a : α) (rest : α → LowerM β) (st : State) :
    ((pure a : LowerM α) >>= rest) st = rest a st := rfl

theorem push_eq_ok (ran : push kind id st = .ok () st') :
    ∃ table, st.table.enter kind id (st.stack.topId st.table) = .ok table ∧
      st' = { st with stack := ⟨⟨id, []⟩ :: st.stack.frames⟩, table := table } := by
  obtain ⟨s, middle, got, ran⟩ := bind_run_eq_ok.mp ran
  cases got
  cases pushed : st.stack.push st.table kind id with
  | error e =>
    rw [pushed] at ran
    cases ran
  | ok result =>
    rw [pushed] at ran
    cases ran
    obtain ⟨entered, same⟩ := Stack.push_eq_ok.mp pushed
    exact ⟨_, entered, by rw [same]⟩

theorem pop_eq_ok (ran : pop id st = .ok () st') :
    ∃ frame outer, st.stack.frames = frame :: outer ∧ st' = { st with stack := ⟨outer⟩ } := by
  obtain ⟨s, middle, got, ran⟩ := bind_run_eq_ok.mp ran
  cases got
  cases popped : st.stack.pop st.table id with
  | error e =>
    rw [popped] at ran
    cases ran
  | ok stack =>
    rw [popped] at ran
    cases ran
    obtain ⟨frame, frames, -⟩ := Stack.pop_eq_ok popped
    exact ⟨frame, stack.frames, frames, rfl⟩

theorem declare_eq_ok (ran : declare name mutable type storage st = .ok () st') :
    ∃ table stack ref,
      st.stack.declare st.table name mutable type storage = (table, .ok (stack, ref)) ∧
        st' = { st with stack := stack, table := table } := by
  obtain ⟨s, middle, got, ran⟩ := bind_run_eq_ok.mp ran
  cases got
  cases declared : st.stack.declare st.table name mutable type storage with
  | mk table result =>
    rw [declared] at ran
    cases result with
    | error e =>
      obtain ⟨_, middle, _, ran⟩ := bind_run_eq_ok.mp ran
      cases ran
    | ok result =>
      cases ran
      exact ⟨table, result.1, result.2, rfl, rfl⟩

theorem push_builder (ran : push kind id st = .ok () st') : st'.builder = st.builder := by
  obtain ⟨table, -, rfl⟩ := push_eq_ok ran
  rfl

theorem pop_builder (ran : pop id st = .ok () st') : st'.builder = st.builder := by
  obtain ⟨frame, outer, -, rfl⟩ := pop_eq_ok ran
  rfl

theorem declare_builder (ran : declare name mutable type storage st = .ok () st') :
    st'.builder = st.builder := by
  obtain ⟨table, stack, ref, -, rfl⟩ := declare_eq_ok ran
  rfl

theorem resolve_eq_ok (ran : resolve node name st = .ok b st') :
    st' = st ∧ (∃ scope ref, Stack.find? name st.stack.frames = some (scope, ref) ∧
      st.table.binding? ref = some b) ∧ (st.builder.place?.isSome → 0 ≤ b.storage) := by
  rw [resolve, isLive_bind] at ran
  obtain ⟨found, middle, asked, ran⟩ := bind_run_eq_ok.mp ran
  obtain ⟨rfl, rfl⟩ : st = middle ∧
      (st.stack.resolve? name).bind (fun found => st.table.binding? found.2) = found := by
    cases asked
    exact ⟨rfl, rfl⟩
  have failed : ∀ {b st'}, resolve.unresolved node name st ≠ .ok b st' := by
    intro b st' absurd
    cases absurd
  cases visible : (st.stack.resolve? name).bind fun found => st.table.binding? found.2 with
  | none =>
    rw [visible] at ran
    exact absurd ran failed
  | some b' =>
    rw [visible] at ran
    simp only at ran
    split at ran
    · exact absurd ran failed
    · next usable =>
      cases ran
      obtain ⟨⟨scope, ref⟩, found, binding⟩ := Option.bind_eq_some_iff.mp visible
      refine ⟨rfl, ⟨scope, ref, found, binding⟩, fun live => ?_⟩
      simpa [live] using usable

namespace State.Follows

variable {slots : List NodeId} {env : Env} {st st' : State}

theorem push (follows : st.Follows slots env) (closed : id ∉ st.scopes)
    (ran : Lowering.push kind id st = .ok () st') :
    st'.Follows slots ([] :: env) ∧ st'.scopes = id :: st.scopes ∧ st'.builder = st.builder := by
  obtain ⟨table, entered, rfl⟩ := push_eq_ok ran
  exact ⟨⟨follows.coherent.enter entered, follows.tracks.push closed entered⟩, rfl, rfl⟩

theorem pop (follows : st.Follows slots (names :: env)) (ran : Lowering.pop id st = .ok () st') :
    st'.Follows slots env ∧ st'.scopes = st.scopes.tail ∧ st'.builder = st.builder := by
  obtain ⟨frame, outer, frames, rfl⟩ := pop_eq_ok ran
  have tracks := follows.tracks
  rw [frames] at tracks
  exact ⟨⟨follows.coherent, tracks.2.2⟩, by simp [scopes, frames], rfl⟩

theorem declare (follows : st.Follows slots env) {node : NodeId} {name : Text} {mutable : Bool}
    {type : Ty} {storage : Ir.LocalId}
    (stored : 0 ≤ storage → slots[storage.toNat]? = some node)
    (ran : Lowering.declare name mutable type storage st = .ok () st') :
    st'.Follows slots (env.declare name ⟨node, mutable⟩) ∧ st'.scopes = st.scopes ∧
      st'.builder = st.builder := by
  obtain ⟨table, stack, ref, declared, rfl⟩ := declare_eq_ok ran
  obtain ⟨coherent, tracks⟩ := follows
  obtain ⟨builder, ⟨frames⟩, table'⟩ := st
  cases frames with
  | nil => cases declared
  | cons frame outer =>
    cases env with
    | nil => exact tracks.elim
    | cons names env =>
      simp only at declared tracks coherent
      cases visible : frame.visible.lookup name with
      | some ref' =>
        rw [Stack.declare_visible outer visible] at declared
        cases declared
      | none =>
        obtain ⟨table'', ref'', declared', declares⟩ := Stack.declare_new coherent outer
          tracks.1.recorded visible mutable type storage
        cases declared.symm.trans declared'
        have undeclared : names.lookup name = none := by
          cases declaredBefore : names.lookup name with
          | none => rfl
          | some d =>
            obtain ⟨_, _, visible', -⟩ := tracks.1.visible name d declaredBefore
            rw [visible] at visible'
            cases visible'
        have added : Env.declare (names :: env) name ⟨node, mutable⟩ =
            ((name, ⟨node, mutable⟩) :: names) :: env := by
          simp [Env.declare, Env.declares, undeclared]
        rw [added]
        exact ⟨⟨declares.coherent, tracks.declare declares stored⟩, rfl, rfl⟩

theorem resolve (follows : st.Follows slots env) (live : st.builder.place?.isSome)
    (ran : Lowering.resolve node name st = .ok b st') :
    st' = st ∧ ∃ (d : Declared) (slot : Nat), env.find? name = some d ∧ b.storage = slot ∧
      slots[slot]? = some d.node := by
  obtain ⟨rfl, ⟨scope, ref, found, binding⟩, usable⟩ := resolve_eq_ok ran
  cases means : env.find? name with
  | none =>
    rw [follows.tracks.resolve_none means] at found
    cases found
  | some d =>
    obtain ⟨scope', ref', b', found', binding', stored⟩ := follows.tracks.resolve_some means
    cases found.symm.trans found'
    cases binding.symm.trans binding'
    have storage := usable live
    exact ⟨rfl, d, b.storage.toNat, rfl, (Int.toNat_of_nonneg storage).symm, stored storage⟩

theorem rebuilt (follows : st.Follows slots env) (builder : Ir.Builder) :
    State.Follows slots env { st with builder := builder } :=
  ⟨follows.coherent, follows.tracks⟩

theorem congr (follows : st.Follows slots env) (stack : st'.stack = st.stack)
    (table : st'.table = st.table) : st'.Follows slots env := by
  refine ⟨by rw [table]; exact follows.coherent, ?_⟩
  rw [stack, table]
  exact follows.tracks

end State.Follows

end MiddleEnd.Lowering
