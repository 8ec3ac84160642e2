import MiddleEnd.Proofs.Ir.Soundness
import MiddleEnd.Proofs.Lowering.Closing

/-!
Lowering builds sound block code, whatever the types of its source and whatever an earlier run has
left in the table.
-/

namespace MiddleEnd

open List Option Ir Lowering Terminator

namespace Scoping

namespace Table

/-- Every record stands under its own number. -/
def Keyed (t : Table) : Prop :=
  ∀ key s, t.scope? key = some s → s.id = key

theorem keyed_empty : Table.empty.Keyed :=
  coherent_empty.keyed

variable {t : Table}

theorem Keyed.modify (keyed : t.Keyed) (key : NodeId) {change : Scope → Scope}
    (id : ∀ s, (change s).id = s.id) : (t.modify key change).Keyed := by
  intro other s found
  rw [scope?_modify] at found
  split at found
  · obtain ⟨s', found', rfl⟩ := map_eq_some_iff.mp found
    rw [id]
    exact keyed other s' found'
  · exact keyed other s found

theorem Keyed.enter (keyed : t.Keyed) {id : NodeId} (entered : t.enter kind id parent = .ok t') :
    t'.Keyed ∧ ∀ ref b, t'.binding? ref = some b → t.binding? ref = some b := by
  obtain ⟨-, ⟨-, -, -, -, rfl⟩ | ⟨missing, -, rfl⟩⟩ := enter_cases entered
  · exact ⟨keyed, fun _ _ found => found⟩
  · have origin : ∀ key s, (Table.mk (t.scopes ++ [(id, .empty kind id parent)])).scope? key =
        some s → t.scope? key = some s ∨ key = id ∧ s = .empty kind id parent := by
      intro key s found
      rw [scope?_append, or_eq_some_iff] at found
      rcases found with old | ⟨-, new⟩
      · exact .inl old
      · simp only [ite_none_right_eq_some, Option.some.injEq] at new
        exact .inr ⟨new.1, new.2.symm⟩
    constructor
    · intro key s found
      obtain old | ⟨rfl, rfl⟩ := origin key s found
      · exact keyed key s old
      · rfl
    · intro ref b found
      obtain ⟨s, recorded, there⟩ := bind_eq_some_iff.mp found
      obtain old | ⟨-, rfl⟩ := origin ref.scope s recorded
      · exact bind_eq_some_iff.mpr ⟨s, old, there⟩
      · cases there

/-- One binding was given storage, and no other binding got any. -/
structure Places (t t' : Table) (ref : BindingRef) (storage : LocalId) : Prop where
  keyed : t'.Keyed
  own : ∀ b, t'.binding? ref = some b → b.storage = storage
  others : ∀ other b, t'.binding? other = some b → other ≠ ref →
    ∃ b', t.binding? other = some b' ∧ b'.storage = b.storage

theorem Keyed.bind (keyed : t.Keyed) (found : t.find? scope name = some ref)
    (bound : t.bind scope name storage = .ok t') : t.Places t' ref storage := by
  unfold Table.bind at bound
  split at bound
  · cases bound
  · rw [found] at bound
    cases bound
    refine ⟨keyed.modify _ fun _ => rfl, fun b placed => ?_, fun other b placed differs => ?_⟩
    · rw [binding?_modifyBinding, if_pos rfl] at placed
      obtain ⟨b', -, rfl⟩ := map_eq_some_iff.mp placed
      rfl
    · rw [binding?_modifyBinding, if_neg differs] at placed
      exact ⟨b, placed, rfl⟩

theorem Keyed.declare {t t' : Table} (keyed : t.Keyed) {scope : NodeId} {name : Text}
    {mutable : Bool} {type : Ty} {ref : BindingRef}
    (declared : t.declare scope name mutable type = .ok (t', ref)) :
    t'.Keyed ∧ t'.find? scope name = some ref ∧
      ∀ other b, t'.binding? other = some b → other ≠ ref → t.binding? other = some b := by
  unfold Table.declare at declared
  split at declared
  · cases declared
  · next s recorded =>
    split at declared
    · cases declared
    · cases declared
      refine ⟨keyed.modify _ fun _ => rfl, ?_, fun other b found differs => ?_⟩
      · simp [find?, scope?_modify, recorded, Scope.position?_push]
      · simp only [binding?, scope?_modify] at found ⊢
        split at found
        · next same =>
          rw [same] at found ⊢
          rw [recorded, map_some, bind_some] at found
          rw [recorded, bind_some]
          have apart : other.position ≠ s.bindings.length := by
            intro last
            exact differs (by rw [← same, ← last])
          have bindings : (s.push ⟨name, mutable, type, noId⟩).bindings =
            s.bindings ++ [⟨name, mutable, type, noId⟩] := rfl
          rw [bindings, List.getElem?_append] at found
          split at found
          · exact found
          · rw [List.getElem?_eq_none (by simp; omega)] at found
            cases found
        · exact found

end Table

theorem Stack.declare_places {s : Stack} (keyed : t.Keyed)
    (declared : s.declare t name mutable type storage = (t', .ok (s', ref))) :
    t.Places t' ref storage ∧ ∃ frame outer, s.frames = frame :: outer ∧
      s'.frames = { frame with visible := (name, ref) :: frame.visible } :: outer := by
  obtain ⟨frames⟩ := s
  cases frames with
  | nil => cases declared
  | cons frame outer =>
    simp only [Stack.declare] at declared
    split at declared
    · cases declared
    · split at declared
      · cases declared
      · next t₁ ref₁ recorded =>
        split at declared
        · cases declared
        · next t₂ bound =>
          cases declared
          refine ⟨?_, frame, outer, rfl, rfl⟩
          -- Where the name is recorded already, its record is that of the innermost frame.
          have known : t₁.Keyed ∧ t₁.find? (topId ⟨frame :: outer⟩ t) name = some ref ∧
              ∀ other b, t₁.binding? other = some b → other ≠ ref →
                t.binding? other = some b := by
            split at recorded
            · next found =>
              cases recorded
              obtain ⟨s, inTable, -⟩ := bind_eq_some_iff.mp found
              have top : topId ⟨frame :: outer⟩ t = frame.scope := by
                simp [topId, top?, inTable, keyed frame.scope s inTable]
              exact ⟨keyed, top ▸ found, fun _ _ found _ => found⟩
            · exact keyed.declare recorded
          obtain ⟨keyed₁, found, origin⟩ := known
          have typed : (t₁.modifyBinding ref fun b =>
              { b with mutable := mutable, type := type }).Keyed :=
            keyed₁.modify ref.scope fun _ => rfl
          have places := typed.bind ((Table.find?_modifyBinding ..).trans found) bound
          refine ⟨places.keyed, places.own, fun other b placed differs => ?_⟩
          obtain ⟨b', placed', same⟩ := places.others other b placed differs
          rw [Table.binding?_modifyBinding, if_neg differs] at placed'
          exact ⟨b', origin other b' placed' differs, same⟩

end Scoping

/-- What lowering guarantees of the code of a function, whatever table it is lowered against. -/
structure Ir.Func.Orderly (g : Func) : Prop where
  reads : g.Defined
  meaningful : ∀ b ∈ g.blocks, ∀ instr ∈ b.instrs, instr.Meaningful
  reached : g.result = .void → ∀ b ∈ g.blocks, b.term ≠ .unreachable

namespace Lowering

open Scoping (Table)

/-- What has been built is sound, and if the table can be trusted, a visible name has no storage but
existing slots. -/
structure State.Safe (trusted : Prop) (st : State) : Prop where
  sound : st.builder.Sound trusted
  keyed : trusted → st.table.Keyed
  stored : trusted → ∀ frame ∈ st.stack.frames, ∀ entry ∈ frame.visible, ∀ b,
    st.table.binding? entry.2 = some b → b.storage < st.builder.func.locals.length

variable {st st' : State} {trusted : Prop}

theorem State.Safe.rebuilt (safe : st.Safe trusted) {builder : Builder}
    (sound : builder.Sound trusted)
    (locals : st.builder.func.locals.length ≤ builder.func.locals.length) :
    State.Safe trusted { st with builder := builder } where
  sound := sound
  keyed := safe.keyed
  stored trust frame member entry visible b found :=
    Int.lt_of_lt_of_le (safe.stored trust frame member entry visible b found)
      (Int.ofNat_le.mpr locals)

variable {name : Text} {node : Node} {table : Table}

theorem State.Safe.resolve (safe : st.Safe trusted) (trust : trusted) {node : NodeId}
    (ran : resolve node name st = .ok b st') :
    st' = st ∧ (st.builder.place?.isSome → (at? st.builder.func.locals b.storage).isSome) := by
  obtain ⟨same, ⟨scope, ref, found, binding⟩, stored⟩ := resolve_eq_ok ran
  obtain ⟨inner, frame, outer, frames, -, visible, -⟩ := Scoping.Stack.find?_eq_some found
  obtain ⟨before, behind, entries, -⟩ := lookup_eq_some_iff.mp visible
  exact ⟨same, fun live => at?_isSome_iff.mpr
    ⟨stored live, safe.stored trust frame (by simp [frames]) (name, ref) (by simp [entries]) b
      binding⟩⟩

theorem State.Safe.push (safe : st.Safe trusted) {id : NodeId}
    (ran : push kind id st = .ok () st') : st'.Safe trusted := by
  obtain ⟨table, entered, rfl⟩ := push_eq_ok ran
  refine ⟨safe.sound, fun trust => ((safe.keyed trust).enter entered).1,
    fun trust frame member entry visible b found => ?_⟩
  rcases mem_cons.mp member with rfl | outer
  · cases visible
  · exact safe.stored trust frame outer entry visible b
      (((safe.keyed trust).enter entered).2 _ _ found)

theorem State.Safe.pop (safe : st.Safe trusted) {id : NodeId}
    (ran : pop id st = .ok () st') : st'.Safe trusted := by
  obtain ⟨frame, outer, frames, rfl⟩ := pop_eq_ok ran
  refine ⟨safe.sound, safe.keyed, fun trust inner member => safe.stored trust inner ?_⟩
  rw [frames]
  exact mem_cons_of_mem _ member

theorem State.Safe.declare (safe : st.Safe trusted) {name : Text} {mutable : Bool} {type : Ty}
    {storage : LocalId} (exist : storage < st.builder.func.locals.length)
    (ran : declare name mutable type storage st = .ok () st') : st'.Safe trusted := by
  obtain ⟨table, stack, ref, declared, rfl⟩ := declare_eq_ok ran
  have places := fun trust => Scoping.Stack.declare_places (safe.keyed trust) declared
  refine ⟨safe.sound, fun trust => (places trust).1.keyed,
    fun trust inner member entry visible b found => ?_⟩
  obtain ⟨places, frame, outer, before, after⟩ := places trust
  by_cases own : entry.2 = ref
  · rw [places.own b (own ▸ found)]
    exact exist
  · obtain ⟨b', earlier, same⟩ := places.others entry.2 b found own
    rw [← same]
    simp only [after] at member
    have stored := safe.stored trust
    rw [before] at stored
    rcases mem_cons.mp member with rfl | member
    · rcases mem_cons.mp visible with rfl | visible
      · exact absurd rfl own
      · exact stored frame (by simp) entry visible b' earlier
    · exact stored inner (by simp [member]) entry visible b' earlier

/-- Whatever could be read before can be read after. -/
def Keeps (st st' : State) : Prop :=
  ∀ operand, st.builder.Supplies operand → st'.builder.Supplies operand

theorem comparison?_known (compares : comparison? op = some pred) (code : UInt8) :
    pred ≠ .other code := by
  rintro rfl
  cases op <;> cases compares

theorem arithmeticOp?_known (computes : arithmeticOp? op = some operation) (code : UInt8) :
    operation ≠ .other code := by
  rintro rfl
  cases op <;> cases computes

theorem define_safe (safe : st.Safe trusted) {type : Builder → Ir.Ty}
    {instr : ValueId → Instr}
    (ran : produce (fun builder => builder.define (type builder) instr) st = .ok o st')
    (defines : ∀ id, (instr id).defines = some id)
    (fits : st.builder.place?.isSome → ∀ values id, at? values id = some (type st.builder) →
      (instr id).FitsWhere trusted st.builder.func.locals values)
    (supplied : ∀ id, ∀ operand ∈ (instr id).operands, st.builder.Supplies operand) :
    st'.Safe trusted ∧ st'.builder.Supplies o ∧ Keeps st st' := by
  obtain ⟨code, emits⟩ := (define_emitted ran).emits
  rw [produce_run] at ran
  cases ran
  obtain ⟨sound, supplies, keeps⟩ := safe.sound.define (type st.builder) defines fits supplied
  exact ⟨safe.rebuilt sound (Nat.le_of_eq (congrArg _ emits.locals.symm)), supplies, keeps⟩

theorem const_supplied (builder : Builder) (fits : ∀ values, operand.Fits values []) :
    builder.Supplies operand :=
  fun _ _ _ => (fits _).mono (nil_subset _)

theorem expr_safe {e : Expr} {o : Operand} (safe : st.Safe trusted)
    (ran : expr e st = .ok o st') :
    st'.Safe trusted ∧ st'.builder.Supplies o ∧ Keeps st st' := by
  replace ran := expr_run ran
  induction ran with
  | int node n =>
    refine ⟨safe, const_supplied _ fun values => .inr ⟨rfl, ?_⟩, fun _ supplies => supplies⟩
    exact ⟨n.le_toInt, Int.le_of_lt_add_one n.toInt_lt⟩
  | bool node b =>
    refine ⟨safe, const_supplied _ fun values => .inl ⟨rfl, ?_⟩, fun _ supplies => supplies⟩
    cases b <;> simp
  | unread _ dead => exact ⟨safe, Builder.supplies_dead dead _, fun _ supplies => supplies⟩
  | load resolved _ made =>
    refine define_safe safe made (fun _ => rfl)
      (fun live values id typed => ⟨trivial, fun trust => ?_⟩) (by simp [Instr.operands])
    obtain ⟨slot, found⟩ := isSome_iff_exists.mp ((safe.resolve trust resolved).2 live)
    rw [found] at typed
    exact ⟨slot, found, typed⟩
  | not _ made inner =>
    obtain ⟨safe₁, supplies, keeps⟩ := inner safe
    obtain ⟨safe', supplied, keeps'⟩ := define_safe safe₁ made (fun _ => rfl)
      (fun _ _ _ typed => ⟨rfl, fun _ => ⟨rfl, typed⟩⟩)
      (by simpa [Instr.operands] using supplies)
    exact ⟨safe', supplied, fun operand given => keeps' _ (keeps _ given)⟩
  | @binary _ _ _ _ _ _ computed _ l r _ _ _ _ _ operates made left right =>
    obtain ⟨safe₁, suppliesLeft, keeps₁⟩ := left safe
    obtain ⟨safe₂, suppliesRight, keeps₂⟩ := right safe₁
    have operands : ∀ operand ∈ [l, r], computed.builder.Supplies operand := by
      simpa using ⟨keeps₂ l suppliesLeft, suppliesRight⟩
    obtain ⟨safe', supplied, keeps₃⟩ := by
      cases operates with
      | compare compares =>
        exact define_safe safe₂ made (fun _ => rfl)
          (fun _ _ _ typed => ⟨comparison?_known compares, fun _ =>
            ⟨comparison?_known compares, typed⟩⟩) fun _ => operands
      | arithmetic _ computes =>
        exact define_safe safe₂ made (fun _ => rfl)
          (fun _ _ _ typed => ⟨arithmeticOp?_known computes, fun _ =>
            ⟨arithmeticOp?_known computes, typed⟩⟩) fun _ => operands
    exact ⟨safe', supplied, fun operand given => keeps₃ _ (keeps₂ _ (keeps₁ _ given))⟩

theorem State.Safe.store (safe : st.Safe trusted) {slot : LocalId} {value : Operand}
    (found : trusted → st.builder.place?.isSome → (at? st.builder.func.locals slot).isSome)
    (supplied : st.builder.Supplies value) :
    State.Safe trusted { st with builder := st.builder.store slot value } := by
  refine safe.rebuilt (safe.sound.store found supplied) (Nat.le_of_eq ?_)
  rw [Builder.locals_store]

theorem State.Safe.terminate (safe : st.Safe trusted) {term : Terminator}
    (closing : term ≠ .pending)
    (known : ∀ kind, term ≠ .unknown kind)
    (targets : ∀ id ∈ term.successors, (st.builder.func.block? id).isSome)
    (supplied : ∀ operand ∈ term.operands, st.builder.Supplies operand) :
    State.Safe trusted { st with builder := st.builder.terminate term } := by
  refine safe.rebuilt (safe.sound.terminate known targets supplied) ?_
  exact Nat.le_of_eq (congrArg List.length (st.builder.terminate_grows closing).2.1.symm)

theorem State.Safe.branch (safe : st.Safe trusted) {test : Operand} {yes no : BlockId}
    (yesFound : (st.builder.func.block? yes).isSome) (noFound : (st.builder.func.block? no).isSome)
    (supplied : st.builder.Supplies test) (id : BlockId) :
    State.Safe trusted { st with builder := st.builder.leave (.branch test yes no) id } := by
  have safe' := @State.Safe.terminate st trusted safe (.branch test yes no) (by simp) (by simp)
    (by simpa [successors] using ⟨yesFound, noFound⟩)
    (by simpa [operands] using supplied)
  exact safe'.rebuilt (safe'.sound.select id) (Nat.le_refl _)

theorem State.Safe.goto (safe : st.Safe trusted) (found : (st.builder.func.block? target).isSome)
    (id : BlockId) :
    State.Safe trusted { st with builder := st.builder.leave (.goto target) id } := by
  have safe' := @State.Safe.terminate st trusted safe (.goto target) (by simp) (by simp)
    (by simpa [successors] using found) (by simp [operands])
  exact safe'.rebuilt (safe'.sound.select id) (Nat.le_refl _)

theorem decl_safe (safe : st.Safe trusted)
    (ran : stmt (.decl node mutable name type value) st = .ok () st') : st'.Safe trusted := by
  cases stmt_run ran with
  | declBehind _ _ declared =>
    exact safe.declare (Int.lt_of_lt_of_le (by decide) (Int.natCast_nonneg _)) declared
  | @decl _ _ _ _ _ slotType _ _ _ _ _ live initializes declared =>
    have longer : (st.builder.alloc name slotType).1.func.locals.length =
        st.builder.func.locals.length + 1 := (Builder.alloc_live live name slotType).2.2
    have reserved := safe.rebuilt (safe.sound.alloc name slotType)
      (by rw [longer]; exact Nat.le_succ _)
    have newest : (st.builder.func.locals.length : Int) <
        (st.builder.alloc name slotType).1.func.locals.length := by
      rw [longer]
      exact Int.lt_succ _
    cases initializes with
    | absent => exact reserved.declare newest declared
    | stored _ ranValue =>
      obtain ⟨safe', supplies, -⟩ := expr_safe reserved ranValue
      obtain ⟨code, emits⟩ := (expr_emitted ranValue).emits
      rw [← emits.locals] at newest
      refine (safe'.store (fun _ _ => at?_isSome_iff.mpr ⟨Int.natCast_nonneg _, newest⟩)
        supplies).declare ?_ declared
      rw [Builder.locals_store]
      exact newest

theorem assign_safe (safe : st.Safe trusted)
    (ran : stmt (.assign node target value) st = .ok () st') : st'.Safe trusted := by
  cases stmt_run ran with
  | assign resolved ranValue =>
    obtain ⟨safe', supplies, -⟩ := expr_safe safe ranValue
    refine safe'.store (fun trust live => ?_) supplies
    obtain ⟨code, emits⟩ := (expr_emitted ranValue).emits
    rw [emits.locals]
    cases place : st.builder.place? with
    | none =>
      rw [expr_dead place ranValue, place] at live
      cases live
    | some p => exact (safe.resolve trust resolved).2 (by simp [place])

theorem cond_safe {yes : Stmt}
    (yesSafe : ∀ st st', State.Safe trusted st → stmt yes st = .ok () st' → st'.Safe trusted)
    (noSafe : ∀ st st', State.Safe trusted st → stmt no st = .ok () st' → st'.Safe trusted)
    (safe : st.Safe trusted) (ran : stmt (.cond node test yes no) st = .ok () st') :
    st'.Safe trusted := by
  cases stmt_run ran with
  | condBehind _ _ ranYes ranNo => exact noSafe _ _ (yesSafe _ _ safe ranYes) ranNo
  | @cond _ _ _ _ _ _ _ _ _ _ f _ _ _ tested placed forked forks toYes ranYes toNo ranNo joins =>
    obtain ⟨safe₁, supplies, -⟩ := expr_safe safe tested
    have sound := safe₁.sound.fork no.isAbsent
    have supplied := Builder.fork_supplies placed supplies no.isAbsent
    rw [forked] at sound supplied
    have safe₂ := safe₁.rebuilt sound (Nat.le_of_eq (congrArg List.length forks.locals.symm))
    have safe₃ := yesSafe _ _ (safe₂.branch forks.first.block?_isSome forks.second.block?_isSome
      supplied f.first) ranYes
    have third := (toYes.precedes.trans (stmt_grown ranYes).grows.precedes).block?_isSome
      forks.third.block?_isSome
    have safe₄ := noSafe _ _ (safe₃.goto third f.second) ranNo
    cases joins with
    | onward => exact safe₄
    | jump =>
      exact safe₄.goto ((toNo.precedes.trans (stmt_grown ranNo).grows.precedes).block?_isSome
        third) f.third

theorem loop_safe {body : Stmt}
    (bodySafe : ∀ st st', State.Safe trusted st → stmt body st = .ok () st' → st'.Safe trusted)
    (safe : st.Safe trusted) (ran : stmt (.loop node test body) st = .ok () st') :
    st'.Safe trusted := by
  cases stmt_run ran with
  | loopBehind _ _ ranBody => exact bodySafe _ _ safe ranBody
  | @loop _ _ _ _ _ _ _ f _ _ forked forks toTest tested toBody ranBody =>
    have sound := safe.sound.fork false
    rw [forked] at sound
    have safe₁ := safe.rebuilt sound (Nat.le_of_eq (congrArg List.length forks.locals.symm))
    obtain ⟨safe₂, supplies, -⟩ := expr_safe (safe₁.goto forks.first.block?_isSome f.first) tested
    have reached := toTest.precedes.trans (expr_emitted tested).grows.precedes
    have safe₃ := bodySafe _ _ (safe₂.branch (reached.block?_isSome forks.second.block?_isSome)
      (reached.block?_isSome forks.third.block?_isSome) supplies f.second) ranBody
    have again := (toBody.precedes.trans (stmt_grown ranBody).grows.precedes).block?_isSome
      (reached.block?_isSome forks.first.block?_isSome)
    exact safe₃.goto again f.third

theorem stmtList_safe
    (each : ∀ s ∈ stmts, ∀ st st', State.Safe trusted st → stmt s st = .ok () st' →
      st'.Safe trusted) (safe : st.Safe trusted) (ran : stmtList stmts st = .ok () st') :
    st'.Safe trusted := by
  induction stmts generalizing st with
  | nil =>
    cases ran
    exact safe
  | cons s rest ih =>
    obtain ⟨middle, ranHead, ranRest⟩ := stmtList_cons ran
    exact ih (fun s member => each s (by simp [member])) (each s (by simp) _ _ safe ranHead) ranRest

theorem stmt_safe {s : Stmt} (safe : st.Safe trusted) (ran : stmt s st = .ok () st') :
    st'.Safe trusted := by
  induction s using Stmt.induction generalizing st st' with
  | absent =>
    cases ran
    exact safe
  | bare node =>
    cases stmt_run ran with
    | bare pushed popped => exact (safe.push pushed).pop popped
  | block node stmts each =>
    cases stmt_run ran with
    | block pushed inner popped =>
      exact (stmtList_safe (fun s member _ _ => each s member) (safe.push pushed) inner).pop popped
  | decl node mutable name type value => exact decl_safe safe ran
  | assign node target value => exact assign_safe safe ran
  | ret node value =>
    cases stmt_run ran with
    | leave =>
      exact safe.terminate (by simp) (by simp) (by simp [successors])
        (by simp [operands])
    | ret _ ranValue =>
      obtain ⟨safe', supplies, -⟩ := expr_safe safe ranValue
      exact safe'.terminate (by simp) (by simp) (by simp [successors])
        (by simpa [operands] using supplies)
  | cond node test yes no yesIH noIH =>
    exact cond_safe (fun _ _ => yesIH) (fun _ _ => noIH) safe ran
  | loop node test body ih => exact loop_safe (fun _ _ => ih) safe ran
  | unknown node kind => cases ran

theorem start_safe (keyed : trusted → table.Keyed) (name : Text) (result : Ir.Ty) :
    State.Safe trusted ⟨.start name result [], .empty, table⟩ := by
  have empty : (Builder.start name result []).Sound trusted := by
    refine ⟨?_, ?_, nodup_nil, fun id => ?_⟩
    · intro _ _ found
      cases found
    · intro _ member
      cases member
    · simp [Builder.start, Ir.Func.definitions, at?]
  refine ⟨empty, keyed, ?_⟩
  intro _ _ member
  cases member

theorem body_safe {module : NodeId} {f : Func} {result : Ir.Ty} (keyed : trusted → table.Keyed)
    (ran : body module f ⟨.start name result [], .empty, table⟩ = .ok () st') :
    st'.Safe trusted ∧ st'.builder.func.entry = 0 ∧ (st'.builder.func.block? 0).isSome := by
  obtain ⟨inModule, inFunction, filled, closed, pushedModule, pushedFunction, ranBody,
    poppedFunction, poppedModule⟩ := body_ok ran
  have opened := ((start_safe keyed name result).push pushedModule).push pushedFunction
  have entered := opened.rebuilt (opened.sound.newBlock.select inFunction.builder.newBlock.2)
    (Nat.le_refl _)
  have grown := stmt_grown ranBody
  rw [push_builder pushedFunction, push_builder pushedModule] at grown
  rw [pop_builder poppedModule, pop_builder poppedFunction]
  refine ⟨((stmt_safe entered ranBody).pop poppedFunction).pop poppedModule, ?_, ?_⟩
  · have known : (0 : Int) ≠ noId := by decide
    rw [grown.grows.entry known]
    rfl
  · exact grown.grows.precedes.block?_isSome rfl

theorem State.Safe.ended (safe : st.Safe trusted) : State.Safe trusted
    { st with builder := st.builder.terminate (ending st.builder.func.result) } := by
  unfold ending
  split <;> exact safe.terminate (by simp) (by simp) (by simp [successors])
    (by simp [operands])

theorem finish_sound (safe : st.Safe True) (entry : st.builder.func.entry = 0)
    (present : (st.builder.func.block? 0).isSome) : (finish st.builder).Sound := by
  have grows := (st.builder.terminate_grows (ending_closing st.builder.func.result)).1
  refine safe.ended.sound.finalize ?_ (grows.precedes.block?_isSome present)
  have known : (0 : Int) ≠ noId := by decide
  rw [grows.entry (entry ▸ known), entry]

theorem func_sound {module : NodeId} (keyed : table.Keyed)
    (ran : func module table f = (.ok g, table')) : g.Sound ∧ table'.Keyed := by
  obtain ⟨result, st', -, ranBody, rfl, rfl⟩ := func_eq_ok ran
  obtain ⟨safe, entry, present⟩ := @body_safe _ True _ _ _ _ _ (fun _ => keyed) ranBody
  exact ⟨finish_sound safe entry present, safe.keyed trivial⟩

theorem collect_sound {module : NodeId} (keyed : table.Keyed)
    (collected : collect (attempts module table entries).1 = .ok funcs) : ∀ g ∈ funcs, g.Sound := by
  have turn := inTurn_of_collect collected
  generalize (attempts module table entries).2 = last at turn
  clear collected
  induction turn with
  | nil => simp
  | cons head tail ih =>
    obtain ⟨sound, keyed'⟩ := func_sound keyed head
    exact forall_mem_cons.mpr ⟨sound, ih keyed'⟩

theorem func_orderly {module : NodeId} (ran : func module table f = (.ok g, table')) :
    g.Orderly := by
  obtain ⟨result, st', -, ranBody, rfl, -⟩ := func_eq_ok ran
  obtain ⟨reached, settled⟩ := body_built ranBody
  obtain ⟨safe, -, -⟩ := @body_safe _ False _ _ _ _ _ False.elim ranBody
  have each := fun block => @Builder.Sound.finalize_block _ _ safe.ended.sound block
  refine ⟨fun block member => ?_, fun block member instr isInstr => ?_,
    finish_reached reached settled⟩
  · exact (each block member).1.strengthen (fun _ _ _ _ _ fits => fits.typed.2)
      fun _ _ _ fits => fits.typed.2
  · exact ((each block member).2 instr isInstr).1

theorem InTurn.orderly {module : NodeId} (turn : InTurn module table entries funcs last) :
    ∀ g ∈ funcs, g.Orderly := by
  induction turn with
  | nil => simp
  | cons head tail ih => exact forall_mem_cons.mpr ⟨func_orderly head, ih⟩

theorem module_orderly {canceled : Bool} {m : Module} {lowered : Ir.Module}
    (succeeded : (module canceled m table).result = .ok lowered) {g : Ir.Func}
    (function : some g ∈ lowered.funcs) : g.Orderly := by
  obtain ⟨funcs, collected, rfl⟩ := module_eq_ok succeeded
  obtain ⟨⟨g', i⟩, member, same⟩ := mem_map.mp function
  cases same
  have orderly := (inTurn_of_collect collected).orderly g' (fst_mem_of_mem_zipIdx member)
  exact ⟨orderly.reads, orderly.meaningful, orderly.reached⟩

/-- Lowered code is sound whatever the types of its source, so validation can find nothing but types
that do not go together. -/
theorem lowered_code_is_sound {canceled : Bool} {m : Module} {table : Table} {lowered : Ir.Module}
    (keyed : table.Keyed) (succeeded : (module canceled m table).result = .ok lowered)
    {g : Ir.Func} (function : some g ∈ lowered.funcs) :
    g.Sound ∧ ∀ fault ∈ g.faults, ∃ position inner,
      fault = .inBlock position inner ∧ inner.isTypeDisagreement := by
  obtain ⟨funcs, collected, rfl⟩ := module_eq_ok succeeded
  obtain ⟨numbered, member, same⟩ := mem_map.mp function
  cases same
  have sound := collect_sound keyed collected numbered.1 (fst_mem_of_mem_zipIdx member)
  have renumbered : Ir.Func.Sound { numbered.1 with id := numbered.2 } :=
    ⟨sound.entry, sound.numbered, sound.ends, ⟨sound.targets.entry, sound.targets.targets⟩,
      ⟨sound.defines.once, sound.defines.all⟩, sound.reads, sound.instrs⟩
  exact ⟨renumbered, fun fault found => renumbered.only_type_disagreements found⟩

/-- Stores a truth value as a number, loops and branches on numbers and returns a number where a
truth value is asked for, with code behind the return. -/
def mismatched : Module where
  id := 1
  name := [109]
  funcs := some [some {
    id := 2
    name := [102]
    result := .bool
    body := .block ⟨3, []⟩ (some [
      .decl ⟨4, []⟩ true [120] .int (.bool ⟨5, []⟩ true),
      .loop ⟨6, []⟩ (.ident ⟨7, []⟩ [120])
        (.block ⟨8, []⟩ (some [
          .assign ⟨9, []⟩ (.ident ⟨10, []⟩ [120])
            (.binary ⟨11, []⟩ .add (.ident ⟨12, []⟩ [120]) (.bool ⟨13, []⟩ false)),
          .cond ⟨14, []⟩ (.ident ⟨15, []⟩ [120]) (.ret ⟨16, []⟩ .absent) .absent])),
      .ret ⟨17, []⟩ (.ident ⟨18, []⟩ [120]),
      .decl ⟨19, []⟩ false [121] .bool (.ident ⟨20, []⟩ [120]),
      .assign ⟨21, []⟩ (.ident ⟨22, []⟩ [120]) (.ident ⟨23, []⟩ [121])]) }]

theorem mismatched_is_sound :
    ∃ lowered g, Table.empty.Keyed ∧
      (module false mismatched .empty).result = .ok lowered ∧ some g ∈ lowered.funcs ∧
      g.faults.length = 6 ∧ g.Sound ∧ ∀ fault ∈ g.faults, ∃ position inner,
        fault = .inBlock position inner ∧ inner.isTypeDisagreement := by
  have runs : (module false mismatched .empty).result.toOption.any (fun lowered =>
      lowered.funcs.any fun entry => entry.any fun g => decide (g.faults.length = 6)) = true := by
    decide +kernel
  cases result : (module false mismatched .empty).result with
  | error failure =>
    rw [result] at runs
    cases runs
  | ok lowered =>
    rw [result] at runs
    obtain ⟨entry, member, isFunction⟩ := any_eq_true.mp runs
    cases entry with
    | none => cases isFunction
    | some g =>
      obtain ⟨sound, only⟩ := lowered_code_is_sound Scoping.Table.keyed_empty result member
      exact ⟨lowered, g, Scoping.Table.keyed_empty, rfl, member, of_decide_eq_true isFunction,
        sound, only⟩

end Lowering

end MiddleEnd
