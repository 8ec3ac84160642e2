import MiddleEnd.Proofs.Lowering.Outcome
import MiddleEnd.Proofs.Lowering.Views

/-!
The books that lowering keeps: scopes are opened and closed in turn, and declarations recorded in
order, those in live code with the next slots.
-/

namespace MiddleEnd

open List Option

variable {s : Stmt} {value : Expr} {node : Node}

/-- A declaration as lowering meets it: in which scope, and whether code is kept there. -/
structure Declaration where
  scope : NodeId
  node : NodeId
  name : Text
  mutable : Bool
  type : Ty
  live : Bool
  deriving DecidableEq, Repr, Inhabited

mutual
/-- The declarations of a statement in order, each with whether the block under construction is open
there. -/
def Stmt.met (scope : NodeId) (live : Bool) : Stmt → List Declaration
  | .block node (some stmts) => Stmt.metInList node.id live stmts
  | .decl node mutable name type _ => [⟨scope, node.id, name, mutable, type, live⟩]
  | .cond _ _ yes no => Stmt.met scope live yes ++ Stmt.met scope live no
  | .loop _ _ body => Stmt.met scope live body
  | _ => []
def Stmt.metInList (scope : NodeId) (live : Bool) : List Stmt → List Declaration
  | [] => []
  | s :: rest => s.met scope live ++ Stmt.metInList scope (live && !s.closes) rest
end

/-- The declarations of a function, each in its scope. -/
def Func.met (f : Func) : List Declaration := f.body.met f.id true

namespace Lowering

open Scoping (Binding Frame ScopeKind Table View)

structure Record where
  scope : NodeId
  binding : Binding

end Lowering

namespace Declaration

open Lowering (Record)

def record (d : Declaration) (storage : Ir.LocalId) : Record :=
  ⟨d.scope, ⟨d.name, d.mutable, d.type, storage⟩⟩

def place (d : Declaration) : NodeId × Text := (d.scope, d.name)

/-- What is recorded of declarations, if the next slot has the given number. -/
def records : Nat → List Declaration → List Record
  | _, [] => []
  | next, d :: rest =>
    if d.live then d.record next :: records (next + 1) rest else d.record Ir.noId :: records next rest

def slot (d : Declaration) : Ir.Slot := ⟨(Lowering.storageType? d.type).getD .void, d.name⟩

def slots (met : List Declaration) : List Ir.Slot := (met.filter live).map slot

theorem slots_append (first second : List Declaration) :
    slots (first ++ second) = slots first ++ slots second := by
  rw [slots, filter_append, map_append, slots, slots]

theorem records_append (next : Nat) (first second : List Declaration) :
    records next (first ++ second) =
      records next first ++ records (next + (slots first).length) second := by
  induction first generalizing next with
  | nil => rfl
  | cons d rest ih =>
    rw [cons_append, records, records, ih, ih]
    cases live : d.live with
    | true =>
      have count : (slots (d :: rest)).length = 1 + (slots rest).length := by
        simp [slots, live, Nat.add_comm]
      simp [count, Nat.add_assoc]
    | false =>
      have count : (slots (d :: rest)).length = (slots rest).length := by simp [slots, live]
      simp [count]

end Declaration

/-! What the table holds. -/

namespace Scoping.Table

def recorded? (t : Table) (place : NodeId × Text) : Option Binding :=
  (t.find? place.1 place.2).bind t.binding?

variable {t t' : Table}

theorem recorded?_congr (same : t'.scope? place.1 = t.scope? place.1) :
    t'.recorded? place = t.recorded? place := by
  rw [recorded?, recorded?, find?, find?, same]
  cases t.scope? place.1 with
  | none => rfl
  | some s =>
    simp only [bind_some]
    cases s.position? place.2 with
    | none => rfl
    | some position => simp only [map_some, bind_some, binding?, same]

theorem recorded?_enter {id : NodeId} (entered : t.enter kind id parent = .ok t')
    (place : NodeId × Text) : t'.recorded? place = t.recorded? place := by
  obtain ⟨-, ⟨-, -, -, -, rfl⟩ | ⟨missing, -, rfl⟩⟩ := enter_cases entered
  · rfl
  · cases known : t.scope? place.1 with
    | some s =>
      refine recorded?_congr ?_
      rw [scope?_append, known, some_or]
    | none =>
      -- If the scope is the new one, it has no names yet.
      rw [recorded?, recorded?, find?, find?, scope?_append, known, none_or]
      split <;> rfl

theorem Declares.recorded? (declares : t.Declares t' scope ref b) (place : NodeId × Text) :
    t'.recorded? place = if place = (scope, b.name) then some b else t.recorded? place := by
  obtain ⟨key, name⟩ := place
  by_cases sameScope : key = scope
  · subst sameScope
    rw [Table.recorded?, declares.found]
    by_cases sameName : name = b.name
    · rw [if_pos sameName, sameName, if_pos rfl, bind_some, declares.binding, if_pos rfl]
    · rw [if_neg sameName, if_neg (by simp [sameName]), Table.recorded?]
      cases found : t.find? key name with
      | none => rfl
      | some other =>
        have different : other ≠ ref := by
          rintro rfl
          have found' : t'.find? key name = some other := by
            rw [declares.found, if_neg sameName, found]
          obtain ⟨-, b', binding, named⟩ := declares.coherent.find?_eq_some.mp found'
          rw [declares.binding, if_pos rfl] at binding
          cases binding
          exact sameName named.symm
        rw [bind_some, bind_some, declares.binding, if_neg different]
  · rw [if_neg (by simp [sameScope])]
    exact recorded?_congr (declares.others key sameScope)

end Scoping.Table

namespace Lowering

open Scoping (Binding Frame ScopeKind Table View)

variable {st st' : State}

theorem declare_frames {stack : Scoping.Stack}
    (declared : stack.declare table name mutable type storage = (table', .ok (stack', ref))) :
    ∃ frame outer, stack.frames = frame :: outer ∧
      stack'.frames = { frame with visible := (name, ref) :: frame.visible } :: outer := by
  unfold Scoping.Stack.declare at declared
  split at declared
  · cases declared
  · next frame outer frames =>
    refine ⟨frame, outer, frames, ?_⟩
    grind

/-- Scopes are opened and closed in turn, and bindings are recorded in them, in this order. The
builder may do anything meanwhile. -/
inductive Records : State → State → List Record → Prop where
  | still {st st' : State} (stack : st'.stack = st.stack) (table : st'.table = st.table) :
      Records st st' []
  | declared {st st' : State} {name : Text} {mutable : Bool} {type : Ty} {storage : Ir.LocalId}
      (ran : declare name mutable type storage st = .ok () st') :
      Records st st' [⟨st.scopes.headD 0, ⟨name, mutable, type, storage⟩⟩]
  | enclosed {st opened filled st' : State} {kind : ScopeKind} {id : NodeId} {records : List Record}
      (pushed : push kind id st = .ok () opened) (inside : Records opened filled records)
      (popped : pop id filled = .ok () st') : Records st st' records
  | trans {st₁ st₂ st₃ : State} {first second : List Record} (before : Records st₁ st₂ first)
      (behind : Records st₂ st₃ second) : Records st₁ st₃ (first ++ second)

namespace Records

variable {records : List Record}

theorem scopes (kept : Records st st' records) : st'.scopes = st.scopes := by
  induction kept with
  | still stack table => rw [State.scopes, stack, State.scopes]
  | declared ran =>
    obtain ⟨table, stack, ref, declared, rfl⟩ := declare_eq_ok ran
    obtain ⟨frame, outer, before, behind⟩ := declare_frames declared
    simp [State.scopes, before, behind]
  | enclosed pushed inside popped ih =>
    obtain ⟨table, -, rfl⟩ := push_eq_ok pushed
    obtain ⟨frame, outer, frames, rfl⟩ := pop_eq_ok popped
    rw [State.scopes, frames] at ih
    exact (List.cons.inj ih).2
  | trans before behind ih ih' => exact ih'.trans ih

/-- What was open before is open again, and shows what it showed, but for names that became visible
in the innermost scope. -/
theorem regular (kept : Records st st' records) (regular : st.Regular) :
    st'.Regular ∧ st'.view.tail = st.view.tail := by
  induction kept with
  | still stack table =>
    obtain ⟨regular', same⟩ := regular.congr stack table
    exact ⟨regular', by rw [same]⟩
  | declared ran =>
    obtain ⟨regular', seen, -⟩ := regular.declare ran
    refine ⟨regular', ?_⟩
    rw [seen]
    exact View.tail_declare _ _
  | enclosed pushed inside popped ih =>
    obtain ⟨opened, seenOpened⟩ := regular.push pushed
    obtain ⟨filled, seenFilled⟩ := ih opened
    obtain ⟨closed, seenClosed⟩ := filled.pop popped
    refine ⟨closed, ?_⟩
    rw [seenClosed, seenFilled, seenOpened, tail_cons]
  | trans before behind ih ih' =>
    obtain ⟨middle, seenMiddle⟩ := ih regular
    obtain ⟨last, seenLast⟩ := ih' middle
    exact ⟨last, seenLast.trans seenMiddle⟩

end Records

def Record.place (r : Record) : NodeId × Text := (r.scope, r.binding.name)

/-- What the last of the records at a place says. -/
def lastAt? (place : NodeId × Text) : List Record → Option Binding
  | [] => none
  | r :: rest => (lastAt? place rest).or (if r.place = place then some r.binding else none)

theorem lastAt?_append (place : NodeId × Text) (first second : List Record) :
    lastAt? place (first ++ second) = (lastAt? place second).or (lastAt? place first) := by
  induction first with
  | nil => simp [lastAt?]
  | cons r rest ih => simp [lastAt?, ih, Option.or_assoc]

theorem lastAt?_isSome : (lastAt? place records).isSome ↔ place ∈ records.map Record.place := by
  induction records with
  | nil => simp [lastAt?]
  | cons r rest ih =>
    rw [lastAt?, isSome_or, Bool.or_eq_true, ih, map_cons, mem_cons, or_comm]
    by_cases here : r.place = place
    · simp [here]
    · simp [here, Ne.symm here]

theorem lastAt?_of_nodup (once : (records.map Record.place).Nodup) (member : r ∈ records) :
    lastAt? r.place records = some r.binding := by
  induction records with
  | nil => cases member
  | cons first rest ih =>
    obtain ⟨new, once⟩ := nodup_cons.mp once
    rw [lastAt?]
    rcases mem_cons.mp member with rfl | later
    · rw [← lastAt?_isSome, Bool.not_eq_true, isSome_eq_false_iff, isNone_iff_eq_none]
        at new
      rw [new, if_pos rfl, none_or]
    · rw [ih once later, some_or]

theorem Records.recorded? (kept : Records st st' records) (regular : st.Regular)
    (place : NodeId × Text) :
    st'.table.recorded? place = (lastAt? place records).or (st.table.recorded? place) := by
  induction kept with
  | still stack table => rw [table, lastAt?, none_or]
  | declared ran =>
    obtain ⟨-, -, frame, outer, ref, frames, declares⟩ := regular.declare ran
    have scope : State.scopes _ = frame.scope :: outer.map Frame.scope := congrArg _ frames
    simp only [declares.recorded?, lastAt?, Record.place, scope, headD_cons, none_or,
      @eq_comm _ place]
    split <;> rfl
  | enclosed pushed inside popped ih =>
    obtain ⟨opened, -⟩ := regular.push pushed
    obtain ⟨table, entered, rfl⟩ := push_eq_ok pushed
    obtain ⟨frame, outer, -, rfl⟩ := pop_eq_ok popped
    rw [← Table.recorded?_enter entered place]
    exact ih opened
  | trans before behind ih ih' =>
    rw [ih' (before.regular regular).1, ih regular, lastAt?_append, Option.or_assoc]

theorem places_records (next : Nat) (met : List Declaration) :
    (Declaration.records next met).map Record.place = met.map Declaration.place := by
  induction met generalizing next with
  | nil => rfl
  | cons d rest ih =>
    rw [Declaration.records]
    split <;> simp only [map_cons, ih] <;> rfl

/-! Which code is kept. -/

theorem live_of_ahead (ran : stmt s st = .ok () st')
    (ahead : ∀ p, st.builder.place? = some p → st'.builder.place?.isSome = !s.closes) :
    st'.builder.place?.isSome = (st.builder.place?.isSome && !s.closes) := by
  cases place : st.builder.place? with
  | none =>
    rw [(stmt_grown ran).dead place, place]
    rfl
  | some p => exact ahead p place

theorem list_live
    (each : ∀ s ∈ stmts, ∀ st st', stmt s st = .ok () st' →
      st'.builder.place?.isSome = (st.builder.place?.isSome && !s.closes))
    (ran : stmtList stmts st = .ok () st') :
    st'.builder.place?.isSome = (st.builder.place?.isSome && !Stmt.closesAny stmts) := by
  induction stmts generalizing st with
  | nil =>
    cases ran
    simp [Stmt.closesAny]
  | cons s rest ih =>
    obtain ⟨middle, ranHead, ranRest⟩ := stmtList_cons ran
    rw [ih (fun s member => each s (by simp [member])) ranRest, each s (by simp) _ _ ranHead,
      Stmt.closesAny, Bool.not_or, Bool.and_assoc]

theorem Initializes.place {p : Ir.Point} (initializes : Initializes slot value st st')
    (live : st.builder.place? = some p) : ∃ q, st'.builder.place? = some q := by
  cases initializes with
  | absent => exact ⟨p, live⟩
  | @stored computed o _ ran =>
    obtain ⟨q, placed⟩ := (expr_emitted ran).place live
    exact ⟨_, ((Ir.Builder.store_live placed slot o).place q placed).1⟩

/-- Behind a statement code is kept if it was kept in front of it and the statement does not
return. -/
theorem stmt_live (ran : stmt s st = .ok () st') :
    st'.builder.place?.isSome = (st.builder.place?.isSome && !s.closes) := by
  induction s using Stmt.induction generalizing st st' with
  | absent =>
    cases ran
    exact (Bool.and_true _).symm
  | bare node =>
    cases stmt_run ran with
    | bare pushed popped =>
      rw [pop_builder popped, push_builder pushed]
      exact (Bool.and_true _).symm
  | block node stmts each =>
    cases stmt_run ran with
    | block pushed inner popped =>
      rw [pop_builder popped, list_live (fun s member st st' => @each s member st st') inner,
        push_builder pushed, Stmt.closes]
  | decl node mutable name type value =>
    refine live_of_ahead ran fun p place => ?_
    cases stmt_run ran with
    | declBehind _ dead => cases dead.symm.trans place
    | @decl _ _ _ _ _ slotType _ _ _ _ _ _ initializes declared =>
      obtain ⟨q, placed⟩ := initializes.place (Ir.Builder.alloc_live place name slotType).2.1
      rw [declare_builder declared, placed]
      rfl
  | assign node target value =>
    refine live_of_ahead ran fun p place => ?_
    cases stmt_run ran with
    | @assign _ _ _ _ b _ _ o _ ranValue =>
      obtain ⟨q, placed⟩ := (expr_emitted ranValue).place place
      rw [((Ir.Builder.store_live placed b.storage o).place q placed).1]
      rfl
  | ret node value =>
    refine live_of_ahead ran fun p place => ?_
    cases stmt_run ran with
    | leave =>
      rw [(Ir.Builder.terminate_live place (by simp)).2.2.1]
      rfl
    | ret _ ranValue =>
      obtain ⟨q, placed⟩ := (expr_emitted ranValue).place place
      rw [(Ir.Builder.terminate_live placed (by simp)).2.2.1]
      rfl
  | cond node test yes no _ _ =>
    refine live_of_ahead ran fun p place => ?_
    cases stmt_run ran with
    | condBehind dead => cases dead.symm.trans place
    | cond _ _ _ _ _ _ _ _ _ _ meets =>
      rw [meets.place]
      rfl
  | loop node test body _ =>
    refine live_of_ahead ran fun p place => ?_
    cases stmt_run ran with
    | loopBehind dead => cases dead.symm.trans place
    | loop _ _ _ _ _ _ _ toExit =>
      rw [toExit.place]
      rfl
  | unknown node kind => cases ran

/-! What is recorded, and which slots are taken. -/

/-- From one state to another, these declarations are recorded and get their slots. -/
structure Allots (met : List Declaration) (st st' : State) : Prop where
  storable : ∀ d ∈ met, (storageType? d.type).isSome
  locals : st'.builder.func.locals = st.builder.func.locals ++ Declaration.slots met
  records : Records st st' (Declaration.records st.builder.func.locals.length met)

theorem Allots.still (stack : st'.stack = st.stack) (table : st'.table = st.table)
    (locals : st'.builder.func.locals = st.builder.func.locals) : Allots [] st st' :=
  ⟨by simp, by rw [locals]; exact (append_nil _).symm, .still stack table⟩

theorem Allots.trans {first second : List Declaration} (before : Allots first st₁ st₂)
    (behind : Allots second st₂ st₃) : Allots (first ++ second) st₁ st₃ where
  storable d member := (mem_append.mp member).elim (before.storable d) (behind.storable d)
  locals := by rw [behind.locals, before.locals, Declaration.slots_append, append_assoc]
  records := by
    have records := before.records.trans behind.records
    rw [before.locals, length_append] at records
    rwa [Declaration.records_append]

theorem Allots.rebuilt {builder : Ir.Builder}
    (locals : builder.func.locals = st.builder.func.locals) :
    Allots [] st { st with builder := builder } :=
  .still rfl rfl locals

theorem Allots.to_still (before : Allots met st₁ st₂) (behind : Allots [] st₂ st₃) :
    Allots met st₁ st₃ := by
  rw [← append_nil met]
  exact before.trans behind

theorem Allots.scopes {met : List Declaration} (allots : Allots met st st') :
    st'.scopes = st.scopes :=
  allots.records.scopes

theorem Allots.of_expr {o : Ir.Operand} (ran : expr e st = .ok o st') : Allots [] st st' := by
  obtain ⟨stack, table, code, emits⟩ := expr_emitted ran
  exact .still stack table emits.locals

theorem Allots.of_initializes (initializes : Initializes slot value st st') : Allots [] st st' := by
  cases initializes with
  | absent => exact .still rfl rfl rfl
  | stored _ ran => exact (Allots.of_expr ran).trans (.rebuilt (Ir.Builder.locals_store ..))

theorem list_allots {stmts : List Stmt}
    (each : ∀ s ∈ stmts, ∀ st st', stmt s st = .ok () st' →
      Allots (s.met (st.scopes.headD 0) st.builder.place?.isSome) st st')
    (ran : stmtList stmts st = .ok () st') :
    Allots (Stmt.metInList (st.scopes.headD 0) st.builder.place?.isSome stmts) st st' := by
  induction stmts generalizing st with
  | nil =>
    cases ran
    rw [Stmt.metInList]
    exact .still rfl rfl rfl
  | cons s rest ih =>
    obtain ⟨middle, ranHead, ranRest⟩ := stmtList_cons ran
    have head := each s (by simp) _ _ ranHead
    have tail := ih (fun s member => each s (by simp [member])) ranRest
    rw [head.scopes, stmt_live ranHead] at tail
    rw [Stmt.metInList]
    exact head.trans tail

theorem decl_allots {mutable : Bool} {name : Text} {type : Ty}
    (ran : stmt (.decl node mutable name type value) st = .ok () st') :
    Allots [⟨st.scopes.headD 0, node.id, name, mutable, type, st.builder.place?.isSome⟩] st st' := by
  cases stmt_run ran with
  | declBehind stored dead declared =>
    rw [dead]
    refine ⟨by simp [stored], ?_, .declared declared⟩
    rw [declare_builder declared]
    exact (append_nil _).symm
  | @decl _ _ _ _ _ slotType _ filled _ _ stored live initializes declared =>
    rw [live]
    obtain ⟨-, locals, records⟩ := Allots.of_initializes initializes
    have books : Records st filled [] := by
      have reserved : Records st { st with builder := (st.builder.alloc name slotType).1 } [] :=
        .still rfl rfl
      exact reserved.trans records
    have recorded := books.trans (.declared declared)
    rw [books.scopes] at recorded
    refine ⟨by simp [stored], ?_, recorded⟩
    rw [declare_builder declared, locals]
    simp [Ir.Builder.alloc, Declaration.slots, Declaration.slot, stored]

theorem cond_allots {yes : Stmt}
    (onYes : ∀ st st', stmt yes st = .ok () st' →
      Allots (yes.met (st.scopes.headD 0) st.builder.place?.isSome) st st')
    (onNo : ∀ st st', stmt no st = .ok () st' →
      Allots (no.met (st.scopes.headD 0) st.builder.place?.isSome) st st')
    (ran : stmt (.cond node test yes no) st = .ok () st') :
    Allots (yes.met (st.scopes.headD 0) st.builder.place?.isSome ++
      no.met (st.scopes.headD 0) st.builder.place?.isSome) st st' := by
  cases stmt_run ran with
  | condBehind dead _ ranYes ranNo =>
    have yesAllots := onYes _ _ ranYes
    have noAllots := onNo _ _ ranNo
    rw [yesAllots.scopes, (stmt_grown ranYes).dead dead] at noAllots
    exact yesAllots.trans noAllots
  | @cond _ _ _ _ _ _ middle _ _ _ _ _ _ live tested _ _ forks toYes ranYes toNo ranNo joins =>
    have toYes' := (Allots.of_expr tested).trans (.rebuilt (toYes.locals.trans forks.locals))
    have onYes := onYes _ _ ranYes
    have toNo' := Allots.rebuilt toNo.locals
    have onNo := onNo _ _ ranNo
    rw [toYes.place, toYes'.scopes] at onYes
    rw [toNo.place, toNo'.scopes, onYes.scopes, toYes'.scopes] at onNo
    have merged : Allots (no.met (st.scopes.headD 0) true) middle st' := by
      cases joins with
      | onward => exact toNo'.trans onNo
      | jump => exact (toNo'.trans onNo).to_still (.rebuilt (Ir.Builder.locals_leave ..))
    rw [live]
    exact (toYes'.trans onYes).trans merged

theorem loop_allots {body : Stmt}
    (onBody : ∀ st st', stmt body st = .ok () st' →
      Allots (body.met (st.scopes.headD 0) st.builder.place?.isSome) st st')
    (ran : stmt (.loop node test body) st = .ok () st') :
    Allots (body.met (st.scopes.headD 0) st.builder.place?.isSome) st st' := by
  cases stmt_run ran with
  | loopBehind _ _ ranBody => exact onBody _ _ ranBody
  | loop live _ forks toTest tested toBody ranBody =>
    have toBody' := ((Allots.rebuilt (toTest.locals.trans forks.locals)).trans
      (.of_expr tested)).trans (.rebuilt toBody.locals)
    have onBody := onBody _ _ ranBody
    rw [toBody.place, toBody'.scopes] at onBody
    rw [live]
    exact (toBody'.trans onBody).to_still (.rebuilt (Ir.Builder.locals_leave ..))

theorem stmt_allots (ran : stmt s st = .ok () st') :
    Allots (s.met (st.scopes.headD 0) st.builder.place?.isSome) st st' := by
  induction s using Stmt.induction generalizing st st' with
  | absent =>
    cases ran
    exact Allots.still rfl rfl rfl
  | bare node =>
    cases stmt_run ran with
    | bare pushed popped =>
      refine ⟨by simp [Stmt.met], ?_, .enclosed pushed (.still rfl rfl) popped⟩
      rw [pop_builder popped, push_builder pushed]
      exact (append_nil _).symm
  | block node stmts each =>
    cases stmt_run ran with
    | @block _ _ _ opened _ _ pushed inner popped =>
      have inside := list_allots (fun s member st st' => @each s member st st') inner
      have builder := push_builder pushed
      have open' : opened.scopes.headD 0 = node.id := by
        obtain ⟨table, -, rfl⟩ := push_eq_ok pushed
        rfl
      rw [open', builder] at inside
      rw [Stmt.met]
      refine ⟨inside.storable, ?_, ?_⟩
      · rw [pop_builder popped, inside.locals, builder]
      · have records := inside.records
        rw [builder] at records
        exact .enclosed pushed records popped
  | decl node mutable name type value =>
    rw [Stmt.met]
    exact decl_allots ran
  | assign node target value =>
    cases stmt_run ran with
    | assign _ ranValue =>
      exact (Allots.of_expr ranValue).trans (.rebuilt (Ir.Builder.locals_store ..))
  | ret node value =>
    cases stmt_run ran with
    | leave => exact Allots.rebuilt (Ir.Builder.locals_terminate ..)
    | ret _ ranValue =>
      exact (Allots.of_expr ranValue).trans (.rebuilt (Ir.Builder.locals_terminate ..))
  | cond node test yes no yesIH noIH =>
    rw [Stmt.met]
    exact cond_allots (fun st st' => @yesIH st st') (fun st st' => @noIH st st') ran
  | loop node test body bodyIH =>
    rw [Stmt.met]
    exact loop_allots (fun st st' => @bodyIH st st') ran
  | unknown node kind => cases ran

/-- The books of a whole function: it records its declarations in order, and the table keeps what it
held elsewhere. -/
theorem func_books {module : NodeId} (coherent : t.Coherent) (ran : func module t f = (.ok g, t')) :
    t'.Coherent ∧ (∀ d ∈ f.met, (storageType? d.type).isSome) ∧
      g.locals = Declaration.slots f.met ∧
      ∀ place, t'.recorded? place =
        (lastAt? place (Declaration.records 0 f.met)).or (t.recorded? place) := by
  obtain ⟨result, st', -, ranBody, rfl, rfl⟩ := func_eq_ok ran
  obtain ⟨inModule, inFunction, filled, closed, pushedModule, pushedFunction, ranStmt,
    poppedFunction, poppedModule⟩ := body_ok ranBody
  have builder := (push_builder pushedFunction).trans (push_builder pushedModule)
  rw [builder] at ranStmt
  have scope : inFunction.scopes.headD 0 = f.id := by
    obtain ⟨_, -, rfl⟩ := push_eq_ok pushedFunction
    rfl
  obtain ⟨storable, locals, records⟩ : Allots f.met inFunction filled := by
    rw [Func.met, ← scope]
    exact (Allots.rebuilt (by rw [builder]; rfl)).trans (stmt_allots ranStmt)
  rw [builder] at locals records
  have books : Records _ st' (Declaration.records 0 f.met) :=
    .enclosed pushedModule (.enclosed pushedFunction records poppedFunction) poppedModule
  have regular : State.Regular ⟨.start f.name result [], .empty, t⟩ := .start coherent
  refine ⟨(books.regular regular).1.coherent, storable, ?_, books.recorded? regular⟩
  have finished : (finish st'.builder).locals = st'.builder.func.locals :=
    Ir.Builder.locals_terminate ..
  rw [finished, pop_builder poppedModule, pop_builder poppedFunction, locals]
  rfl

end Lowering

end MiddleEnd
