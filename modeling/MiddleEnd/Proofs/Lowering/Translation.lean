import MiddleEnd.Proofs.Lowering.Runs

/-!
Lowering a statement lays down its code.
-/

namespace MiddleEnd

open List Ir Stmt

theorem Stmt.codeAt_none (g : Ir.Func) (slots : List NodeId) (env : Env) (s : Stmt) :
    s.CodeAt g slots env none none := by
  cases s with
  | block node stmts => cases stmts <;> simp [CodeAt]
  | _ => simp [CodeAt]

namespace Lowering

variable {slots : List NodeId} {env env' : Env} {st st' : State}

/-- What lowering an expression in live code comes to. -/
structure Lowers (slots : List NodeId) (env : Env) (e : Expr) (o : Operand) (st st' : State)
    (code : List Instr) : Prop where
  computes : e.Code slots env st.builder.func.values.length code o st'.builder.func.values.length
  emits : st.builder.Emits st'.builder code
  stack : st'.stack = st.stack
  table : st'.table = st.table

variable {e : Expr} {p : Point} {o : Operand}
  {code : Ir.Func → Option Point → Option Point → Prop} {closes : Bool} {stored : List NodeId}

theorem Lowers.define {middle : State} {code : List Instr} {type : Builder → Ir.Ty}
    {instr : ValueId → Instr} (live : st.builder.place? = some p)
    (emits : st.builder.Emits middle.builder code) (stack : middle.stack = st.stack)
    (table : middle.table = st.table)
    (computes : e.Code slots env st.builder.func.values.length (code ++ [instr
      middle.builder.func.values.length]) (.value middle.builder.func.values.length (type
      middle.builder)) (middle.builder.func.values.length + 1))
    (ran : produce (fun builder => builder.define (type builder) instr) middle = .ok o st') :
    Lowers slots env e o st st' (code ++ [instr middle.builder.func.values.length]) := by
  obtain ⟨operand, values, defines⟩ :=
    Builder.define_live (emits.place p live).1 (type middle.builder) instr
  rw [produce_run, operand] at ran
  cases ran
  exact ⟨by rw [values]; exact computes, emits.trans defines, stack, table⟩

theorem expr_live (follows : st.Follows slots env) (live : st.builder.place? = some p)
    (ran : expr e st = .ok o st') : ∃ code, Lowers slots env e o st st' code := by
  replace ran := expr_run ran
  induction ran generalizing p with
  | int | bool => exact ⟨[], by constructor, .nil _, rfl, rfl⟩
  | unread _ dead => cases dead.symm.trans live
  | load resolved _ made =>
    obtain ⟨-, d, slot, means, storage, stored⟩ := follows.resolve (by simp [live]) resolved
    rw [storage] at made
    refine ⟨_, .define live (.nil _) rfl rfl ?_ made⟩
    exact .ident means stored
  | not _ made inner =>
    obtain ⟨code, lowers⟩ := inner follows live
    exact ⟨_, .define live lowers.emits lowers.stack lowers.table (.not lowers.computes) made⟩
  | binary _ _ operates made left right =>
    obtain ⟨code, onLeft⟩ := left follows live
    obtain ⟨code', onRight⟩ := right (follows.congr onLeft.stack onLeft.table)
      (onLeft.emits.place p live).1
    refine ⟨_, .define live (onLeft.emits.trans onRight.emits) (onRight.stack.trans onLeft.stack)
      (onRight.table.trans onLeft.table) ?_ made⟩
    cases operates with
    | compare compares => exact .compare compares onLeft.computes onRight.computes
    | arithmetic _ computes => exact .arithmetic computes onLeft.computes onRight.computes

/-- These scopes are still to be opened, each once. -/
structure State.Unopened (st : State) (ids : List NodeId) : Prop where
  nodup : ids.Nodup
  closed : ∀ id ∈ ids, id ∉ st.scopes

theorem State.Unopened.sublist (unopened : st.Unopened ids) (sublist : fewer.Sublist ids) :
    st.Unopened fewer :=
  ⟨unopened.nodup.sublist sublist, fun id member => unopened.closed id (sublist.subset member)⟩

theorem State.Unopened.congr (unopened : st.Unopened ids) (scopes : st'.scopes = st.scopes) :
    st'.Unopened ids :=
  ⟨unopened.nodup, fun id member => scopes ▸ unopened.closed id member⟩

/-- In live code the next slots belong to these declarations. -/
def State.Reserves (slots : List NodeId) (st : State) (ids : List NodeId) : Prop :=
  ∀ p, st.builder.place? = some p → ids <+: slots.drop st.builder.func.locals.length

theorem State.Reserves.left (reserves : st.Reserves slots (first ++ second)) :
    st.Reserves slots first :=
  fun p live => (prefix_append first second).trans (reserves p live)

theorem drop_of_append_prefix (whole : first ++ second <+: slots.drop taken) :
    second <+: slots.drop (taken + first.length) := by
  obtain ⟨rest, split⟩ := whole
  refine ⟨rest, ?_⟩
  calc second ++ rest
    _ = (first ++ (second ++ rest)).drop first.length := drop_left.symm
    _ = (slots.drop taken).drop first.length := by rw [← split, append_assoc]
    _ = slots.drop (taken + first.length) := drop_drop

/-- Lowering declared what the environment now has, closed the selected block or not, gave slots to
declarations, and laid down code between two places. -/
structure Lowered (slots : List NodeId) (env : Env) (closes : Bool) (stored : List NodeId)
    (code : Ir.Func → Option Point → Option Point → Prop) (st st' : State) : Prop where
  follows : st'.Follows slots env
  scopes : st'.scopes = st.scopes
  grows : st.builder.Grows st'.builder
  dead : st.builder.place? = none → st'.builder = st.builder
  live : ∀ p, st.builder.place? = some p → st'.builder.place?.isNone = closes ∧
    st'.builder.func.locals.length = st.builder.func.locals.length + stored.length
  code : ∀ g, st'.builder.func.Precedes g → code g st.builder.place? st'.builder.place?

/-- The statement is lowered correctly from any state that it fits. -/
def Translates (slots : List NodeId) (s : Stmt) : Prop :=
  ∀ env st st', stmt s st = .ok () st' → st.Follows slots env → st.Unopened s.nodeIds →
    st.Reserves slots s.stored →
    Lowered slots (s.declare env) s.closes s.stored (fun g => s.CodeAt g slots env) st st'

theorem Lowered.idle (follows : st'.Follows slots env) (scopes : st'.scopes = st.scopes)
    (builder : st'.builder = st.builder) (holds : ∀ g p, code g p p) :
    Lowered slots env false [] code st st' where
  follows := follows
  scopes := scopes
  grows := builder ▸ .refl _
  dead _ := builder
  live p live := by simp [builder, live]
  code g _ := builder ▸ holds g _

theorem Lowered.behind (grown : Grown st st') (dead : st.builder.place? = none)
    (follows : st'.Follows slots env) (scopes : st'.scopes = st.scopes)
    (holds : ∀ g, code g none none) : Lowered slots env closes stored code st st' where
  follows := follows
  scopes := scopes
  grows := grown.grows
  dead := grown.dead
  live p live := by simp [dead] at live
  code g _ := by
    rw [grown.dead dead, dead]
    exact holds g

theorem Lowered.alive (grown : Grown st st') (place : st.builder.place? = some p)
    (follows : st'.Follows slots env) (scopes : st'.scopes = st.scopes)
    (closed : st'.builder.place?.isNone = closes)
    (locals : st'.builder.func.locals.length = st.builder.func.locals.length + stored.length)
    (holds : ∀ g, st'.builder.func.Precedes g → code g (some p) st'.builder.place?) :
    Lowered slots env closes stored code st st' where
  follows := follows
  scopes := scopes
  grows := grown.grows
  dead := grown.dead
  live _ _ := ⟨closed, locals⟩
  code g precedes := place ▸ holds g precedes

theorem Lowered.trans {env₁ env₂ : Env}
    {code₁ code₂ : Ir.Func → Option Point → Option Point → Prop}
    (first : Lowered slots env₁ closes₁ stored₁ code₁ st middle)
    (second : Lowered slots env₂ closes₂ stored₂ code₂ middle st') :
    Lowered slots env₂ (closes₁ || closes₂) (stored₁ ++ if closes₁ then [] else stored₂)
      (fun g p q => ∃ between, code₁ g p between ∧ code₂ g between q) st st' where
  follows := second.follows
  scopes := second.scopes.trans first.scopes
  grows := first.grows.trans second.grows
  dead dead := by
    have same := first.dead dead
    rw [second.dead (same ▸ dead), same]
  live p live := by
    obtain ⟨closed, locals⟩ := first.live p live
    cases place : middle.builder.place? with
    | none =>
      simp only [place, Option.isNone_none] at closed
      simp [second.dead place, place, ← closed, locals]
    | some between =>
      simp only [place, Option.isNone_some] at closed
      obtain ⟨closed', locals'⟩ := second.live between place
      simp [closed', ← closed, locals', locals, Nat.add_assoc]
  code g precedes :=
    ⟨_, first.code g (second.grows.precedes.trans precedes), second.code g precedes⟩

theorem Lowered.reserves (lowered : Lowered slots env closes stored code st st')
    (reserves : st.Reserves slots (stored ++ if closes then [] else later)) :
    st'.Reserves slots later := by
  intro between liveBetween
  cases live : st.builder.place? with
  | none =>
    rw [lowered.dead live, live] at liveBetween
    cases liveBetween
  | some p =>
    obtain ⟨closed, locals⟩ := lowered.live p live
    simp only [liveBetween, Option.isNone_some] at closed
    have whole := reserves p live
    rw [← closed] at whole
    rw [locals]
    exact drop_of_append_prefix whole

theorem Lowered.rescope {inner : Env} {code' : Ir.Func → Option Point → Option Point → Prop}
    (lowered : Lowered slots inner closes stored code opened filled)
    (before : opened.builder = st.builder) (after : st'.builder = filled.builder)
    (follows : st'.Follows slots env) (scopes : st'.scopes = st.scopes)
    (behind : ∀ g, code' g none none) (reads : ∀ g p q, code g (some p) q → code' g (some p) q) :
    Lowered slots env closes stored code' st st' := by
  obtain ⟨-, -, grows, dead, live, code⟩ := lowered
  rw [before, ← after] at grows dead live code
  refine ⟨follows, scopes, grows, dead, live, fun g precedes => ?_⟩
  cases place : st.builder.place? with
  | none =>
    rw [dead place, place]
    exact behind g
  | some p => exact reads g p _ (place ▸ code g precedes)

/-- The state is one in which lowering may come to nodes and declarations with these numbers. -/
structure State.Fits (slots : List NodeId) (env : Env) (ids stored : List NodeId) (st : State) :
    Prop where
  follows : st.Follows slots env
  unopened : st.Unopened ids
  reserves : st.Reserves slots stored

namespace State.Fits

variable {ids others stored later : List NodeId} {p : Point}

theorem sublist (fits : st.Fits slots env others stored) (sublist : ids.Sublist others) :
    st.Fits slots env ids stored :=
  ⟨fits.follows, fits.unopened.sublist sublist, fits.reserves⟩

theorem first (fits : st.Fits slots env (ids ++ others) (stored ++ later)) :
    st.Fits slots env ids stored :=
  ⟨fits.follows, fits.unopened.sublist (sublist_append_left ..), fits.reserves.left⟩

theorem push (kind : Scoping.ScopeKind) {id : NodeId} (fits : st.Fits slots env (id :: ids) stored)
    (ran : Lowering.push kind id st = .ok () st') : st'.Fits slots ([] :: env) ids stored := by
  obtain ⟨follows, scopes, builder⟩ := fits.follows.push (fits.unopened.closed id (by simp)) ran
  obtain ⟨fresh, nodup⟩ := nodup_cons.mp fits.unopened.nodup
  refine ⟨follows, ⟨nodup, fun other member => ?_⟩, ?_⟩
  · rw [scopes, mem_cons, not_or]
    exact ⟨ne_of_mem_of_not_mem member fresh, fits.unopened.closed other (by simp [member])⟩
  · rw [State.Reserves, builder]
    exact fits.reserves

theorem moved {builder : Builder} (fits : st.Fits slots env ids stored)
    (live : st.builder.place? = some p) (stack : st'.stack = st.stack) (table : st'.table = st.table)
    (locals : builder.func.locals = st.builder.func.locals) :
    State.Fits slots env ids stored { st' with builder := builder } where
  follows := (fits.follows.congr stack table).rebuilt builder
  unopened := fits.unopened.congr (by simp only [State.scopes, stack])
  reserves _ _ := by
    rw [locals]
    exact fits.reserves p live

theorem second (fits : st.Fits slots env (ids ++ others) (stored ++ if closes then [] else later))
    (lowered : Lowered slots env' closes stored code st st') : st'.Fits slots env' others later :=
  ⟨lowered.follows, (fits.unopened.sublist (sublist_append_right ..)).congr lowered.scopes,
    lowered.reserves fits.reserves⟩

theorem beside {builder : Builder} (fits : st.Fits slots env (ids ++ others) (stored ++ later))
    (live : st.builder.place? = some p) (lowered : Lowered slots env' closes stored code st st')
    (locals : builder.func.locals = st'.builder.func.locals) :
    State.Fits slots env' others later { st' with builder := builder } where
  follows := lowered.follows.rebuilt builder
  unopened := (fits.unopened.sublist (sublist_append_right ..)).congr lowered.scopes
  reserves _ _ := by
    rw [locals, (lowered.live p live).2]
    exact drop_of_append_prefix (fits.reserves p live)

variable {node : Node} {test : Expr} {yes no body : Stmt}

theorem ways (fits : st.Fits slots env (cond node test yes no).nodeIds
    (cond node test yes no).stored) :
    st.Fits slots env (yes.nodeIds ++ no.nodeIds) (yes.stored ++ no.stored) := by
  rw [nodeIds_cond, stored] at fits
  exact (fits.sublist (sublist_cons_self ..)).sublist (sublist_append_right ..)

theorem again (fits : st.Fits slots env (loop node test body).nodeIds
    (loop node test body).stored) : st.Fits slots env body.nodeIds body.stored := by
  rw [nodeIds_loop, stored] at fits
  exact (fits.sublist (sublist_cons_self ..)).sublist (sublist_append_right ..)

theorem slot {name : Text}
    (fits : st.Fits slots env ids (Stmt.decl node mutable name type value).stored)
    (live : st.builder.place? = some p) : slots[st.builder.func.locals.length]? = some node.id := by
  obtain ⟨others, split⟩ := fits.reserves p live
  rw [← List.head?_drop, ← split]
  simp [Stmt.stored]

end State.Fits

theorem translates_list (each : ∀ s ∈ stmts, Translates slots s)
    (fits : st.Fits slots env (nodeIdsOfList stmts) (storedOfList stmts))
    (ran : stmtList stmts st = .ok () st') :
    Lowered slots (declareAll env stmts) (closesAny stmts) (storedOfList stmts)
      (fun g => CodeOfListAt g slots env stmts) st st' := by
  induction stmts generalizing env st with
  | nil =>
    cases ran
    simp only [closesAny, storedOfList]
    exact .idle fits.follows rfl rfl fun g p => by simp [CodeOfListAt]
  | cons s rest ih =>
    rw [nodeIdsOfList_cons, storedOfList] at fits
    obtain ⟨_, middle, ranHead, ranRest⟩ := bind_run_eq_ok.mp ran
    have head := each s (by simp) env st middle ranHead fits.follows fits.first.unopened
      fits.first.reserves
    have tail := ih (fun s member => each s (by simp [member])) (fits.second head) ranRest
    simp only [closesAny, storedOfList, CodeOfListAt]
    exact head.trans tail

theorem translates_block (node : Node) (each : ∀ s ∈ stmts, Translates slots s) :
    Translates slots (.block node (some stmts)) := by
  intro env st st' ran follows unopened reserves
  rw [nodeIds_block] at unopened
  cases stmt_run ran with
  | @block _ _ _ opened filled _ pushed inner popped =>
    have scopes := (follows.push (unopened.closed node.id (by simp)) pushed).2.1
    have lowered := translates_list each (State.Fits.push .block ⟨follows, unopened, reserves⟩ pushed)
      inner
    obtain ⟨names, same⟩ := declareAll_cons stmts [] env
    obtain ⟨follows', scopes', builder⟩ := (same ▸ lowered.follows).pop popped
    simp only [closes, stored, Stmt.declare]
    refine lowered.rescope (push_builder pushed) builder follows' ?_
      (codeAt_none · slots env _) ?_
    · rw [scopes', lowered.scopes, scopes, tail_cons]
    · intro g p q code
      simpa only [CodeAt] using code

theorem Lowers.computes_at {code : List Instr} (lowers : Lowers slots env e o st st' code)
    (place : st.builder.place? = some p) {g : Ir.Func} (precedes : st'.builder.func.Precedes g) :
    g.Computes slots env e p o (p.skip code.length) :=
  ⟨_, code, _, lowers.computes, precedes.code _ _ (lowers.emits.place p place).2, rfl⟩

theorem Lowers.assigns_at {code : List Instr} (lowers : Lowers slots env e o st st' code)
    (place : st.builder.place? = some p) {slot : Nat} (stored : slots[slot]? = some cell) :
    (st'.builder.store slot o).func.locals = st.builder.func.locals ∧
      ∃ q, (st'.builder.store slot o).place? = some q ∧
        ∀ g, (st'.builder.store slot o).func.Precedes g → g.Assigns slots env cell e p q := by
  have between := (lowers.emits.place p place).1
  have stores := Builder.store_live between slot o
  obtain ⟨placed, hasCode⟩ := stores.place _ between
  refine ⟨stores.locals.trans lowers.emits.locals, _, placed, fun g precedes => ?_⟩
  exact ⟨slot, o, _, stored, lowers.computes_at place (stores.grows.precedes.trans precedes),
    precedes.code _ _ hasCode, rfl⟩

theorem translates_decl (node : Node) (mutable : Bool) (name : Text) (type : Ty) (value : Expr) :
    Translates slots (.decl node mutable name type value) := by
  intro env st st' ran follows unopened reserves
  have grown := stmt_grown ran
  cases stmt_run ran with
  | declBehind _ dead declared =>
    have stored : 0 ≤ noId → slots[noId.toNat]? = some node.id := by simp [noId]
    obtain ⟨follows', scopes, -⟩ := follows.declare stored declared
    exact .behind grown dead follows' scopes fun g => Stmt.codeAt_none g slots env _
  | @decl _ _ _ _ _ slotType _ filled _ p _ live initializes declared =>
    have stored := State.Fits.slot ⟨follows, unopened, reserves⟩ live
    have declares : 0 ≤ (st.builder.func.locals.length : Int) →
        slots[(st.builder.func.locals.length : Int).toNat]? = some node.id := fun _ => stored
    obtain ⟨-, placed, locals⟩ := Builder.alloc_live live name slotType
    have reserved := follows.rebuilt (st.builder.alloc name slotType).1
    cases initializes with
    | absent absent =>
      obtain ⟨follows', scopes, builder⟩ := reserved.declare declares declared
      refine .alive grown live follows' scopes ?_ ?_ fun g _ => ?_
      · rw [builder, placed]
        rfl
      · rw [builder, locals]
        rfl
      · rw [builder, placed]
        simp [CodeAt, absent]
    | stored present ranValue =>
      obtain ⟨code, lowers⟩ := expr_live reserved placed ranValue
      obtain ⟨sameLocals, q, placed', assigns⟩ := lowers.assigns_at placed stored
      have computed := reserved.congr lowers.stack lowers.table
      obtain ⟨follows', scopes, builder⟩ := (computed.rebuilt _).declare declares declared
      refine .alive grown live follows' (scopes.trans ?_) ?_ ?_ fun g precedes => ?_
      · simp only [State.scopes, lowers.stack]
      · rw [builder]
        exact placed' ▸ rfl
      · rw [builder]
        exact sameLocals ▸ locals
      · rw [builder] at precedes ⊢
        simp only [CodeAt, present, Bool.false_eq_true, if_false]
        exact ⟨q, assigns g precedes, placed'⟩

theorem translates_assign (node : Node) (target value : Expr) :
    Translates slots (.assign node target value) := by
  intro env st st' ran follows _ _
  have grown := stmt_grown ran
  cases stmt_run ran with
  | @assign _ _ name _ b _ computed o resolved ranValue =>
    have emitted := expr_emitted ranValue
    have follows' := (follows.congr emitted.stack emitted.table).rebuilt
      (computed.builder.store b.storage o)
    have scopes : computed.scopes = st.scopes := by simp only [State.scopes, emitted.stack]
    cases place : st.builder.place? with
    | none => exact .behind grown place follows' scopes fun g => codeAt_none g slots env _
    | some p =>
      obtain ⟨-, d, slot, means, storage, stored⟩ := follows.resolve (by simp [place]) resolved
      obtain ⟨code, lowers⟩ := expr_live follows place ranValue
      obtain ⟨locals, q, placed, assigns⟩ := lowers.assigns_at place stored
      rw [storage] at follows' grown ⊢
      refine .alive grown place follows' scopes (placed ▸ rfl) (locals ▸ rfl) fun g precedes => ?_
      simp only [CodeAt]
      exact ⟨d, q, means, assigns g precedes, placed⟩

theorem lowered_terminate {computed : State}
    (grown : Grown st { computed with builder := computed.builder.terminate term })
    (place : st.builder.place? = some p) (follows : computed.Follows slots env)
    (stack : computed.stack = st.stack) (emits : st.builder.Emits computed.builder instrs)
    (closing : term ≠ .pending)
    (holds : ∀ g, computed.builder.func.Precedes g → g.HasTerm (p.skip instrs.length) term → code g
      (some p) none) :
    Lowered slots env true [] code st
      { computed with builder := computed.builder.terminate term } := by
  obtain ⟨grows, locals, closed, hasTerm⟩ :=
    Builder.terminate_live (emits.place p place).1 closing
  refine .alive grown place (follows.rebuilt _) ?_ (closed ▸ rfl) ?_ fun g precedes => ?_
  · simp only [State.scopes, stack]
  · rw [locals, emits.locals]
    rfl
  · rw [closed]
    exact holds g (grows.precedes.trans precedes) (precedes.term _ _ hasTerm closing)

theorem translates_ret (node : Node) (value : Expr) : Translates slots (.ret node value) := by
  intro env st st' ran follows _ _
  have grown := stmt_grown ran
  cases place : st.builder.place? with
  | none =>
    have behind : st'.stack = st.stack ∧ st'.table = st.table := by
      cases stmt_run ran with
      | leave => exact ⟨rfl, rfl⟩
      | ret _ ranValue => exact ⟨(expr_emitted ranValue).stack, (expr_emitted ranValue).table⟩
    exact .behind grown place (follows.congr behind.1 behind.2)
      (by simp only [State.scopes, behind.1]) fun g => codeAt_none g slots env _
  | some p =>
    cases stmt_run ran with
    | leave =>
      refine lowered_terminate grown place follows rfl (.nil _) (by simp) fun g _ hasTerm => ?_
      simpa [CodeAt, Expr.isAbsent] using hasTerm
    | ret present ranValue =>
      obtain ⟨code, lowers⟩ := expr_live follows place ranValue
      refine lowered_terminate grown place (follows.congr lowers.stack lowers.table)
        lowers.stack lowers.emits (by simp) fun g precedes hasTerm => ?_
      simp only [CodeAt, present, Bool.false_eq_true, if_false, and_true]
      exact ⟨_, _, lowers.computes_at place precedes, hasTerm⟩

theorem translates_cond (node : Node) (test : Expr) (yesIH : Translates slots yes)
    (noIH : Translates slots no) : Translates slots (.cond node test yes no) := by
  intro env st st' ran follows unopened reserves
  have fits := State.Fits.ways ⟨follows, unopened, reserves⟩
  have grown := stmt_grown ran
  cases stmt_run ran with
  | @condBehind _ _ _ _ _ middle _ _ dead _ ranYes ranNo =>
    have onYes := yesIH env st middle ranYes follows fits.first.unopened fits.first.reserves
    have stillDead : middle.builder.place? = none := by rw [onYes.dead dead, dead]
    have onNo := noIH _ middle st' ranNo onYes.follows
      ((fits.unopened.sublist (sublist_append_right ..)).congr onYes.scopes)
      (by simp [State.Reserves, stillDead])
    exact .behind grown dead onNo.follows (onNo.scopes.trans onYes.scopes)
      fun g => codeAt_none g slots env _
  | @cond _ _ _ _ _ computed middle last _ o f p q live tested placed _ forks toYes ranYes toNo
      ranNo _ meets =>
      obtain ⟨code, lowers⟩ := expr_live follows live tested
      cases placed.symm.trans (lowers.emits.place p live).1
      -- The test branches to the first block, which takes the code of one way. From its end control
      -- jumps to the third block. The second one takes the other way.
      have fitsYes := fits.moved live lowers.stack lowers.table
        (toYes.locals.trans (forks.locals.trans lowers.emits.locals))
      have onYes := yesIH env _ middle ranYes fitsYes.follows fitsYes.first.unopened
        fitsYes.first.reserves
      have fitsNo := fitsYes.beside toYes.place onYes toNo.locals
      have onNo := noIH _ _ last ranNo fitsNo.follows fitsNo.unopened fitsNo.reserves
      refine .alive grown live (onNo.follows.congr meets.stack meets.table) ?_ (meets.place ▸ rfl) ?_
        fun g precedes => ?_
      · have scopes : computed.scopes = st.scopes := by simp only [State.scopes, lowers.stack]
        simp only [State.scopes, meets.stack]
        exact onNo.scopes.trans (onYes.scopes.trans scopes)
      · rw [meets.locals, (onNo.live _ toNo.place).2, toNo.locals, (onYes.live _ toYes.place).2,
          toYes.locals, forks.locals, lowers.emits.locals, stored, length_append, Nat.add_assoc]
      · have fromLast := meets.precedes.trans precedes
        have fromNo := onNo.grows.precedes.trans fromLast
        have fromMiddle := toNo.precedes.trans fromNo
        have fromYes := onYes.grows.precedes.trans fromMiddle
        have fromTest := forks.grows.precedes.trans (toYes.precedes.trans fromYes)
        have yesCode := onYes.code g fromMiddle
        have noCode := onNo.code g fromLast
        rw [toYes.place] at yesCode
        rw [toNo.place] at noCode
        simp only [CodeAt]
        exact ⟨o, _, f.first, f.second, f.third, _, _, lowers.computes_at live fromTest,
          toYes.term g fromYes _ forks.place, yesCode, toNo.term g fromNo, noCode,
          meets.jumps g precedes, meets.place⟩

theorem translates_loop (node : Node) (test : Expr) {body : Stmt} (bodyIH : Translates slots body) :
    Translates slots (.loop node test body) := by
  intro env st st' ran follows unopened reserves
  have fits := State.Fits.again ⟨follows, unopened, reserves⟩
  have grown := stmt_grown ran
  cases stmt_run ran with
  | loopBehind dead _ ranBody =>
    have onBody := bodyIH env st st' ranBody follows fits.unopened fits.reserves
    exact .behind grown dead onBody.follows onBody.scopes fun g => codeAt_none g slots env _
  | @loop _ _ _ _ computed last o f p live _ forks toTest tested toBody ranBody toExit =>
    -- The first block takes the test, the second one the body, and the third one what follows.
    obtain ⟨code, lowers⟩ := expr_live
      (follows.rebuilt (f.builder.leave (.goto f.first) f.first)) toTest.place tested
    have fitsBody := fits.moved live lowers.stack lowers.table
      (toBody.locals.trans (lowers.emits.locals.trans (toTest.locals.trans forks.locals)))
    have onBody := bodyIH env _ last ranBody fitsBody.follows fitsBody.unopened fitsBody.reserves
    have scopes : computed.scopes = st.scopes := by simp only [State.scopes, lowers.stack]
    refine .alive grown live (onBody.follows.rebuilt _) (onBody.scopes.trans scopes) ?_ ?_
      fun g precedes => ?_
    · rw [toExit.place]
      rfl
    · rw [toExit.locals, (onBody.live _ toBody.place).2, toBody.locals, lowers.emits.locals,
        toTest.locals, forks.locals, stored]
    · have fromLast := toExit.precedes.trans precedes
      have fromBody := onBody.grows.precedes.trans fromLast
      have fromComputed := toBody.precedes.trans fromBody
      have fromTest := lowers.emits.grows.precedes.trans fromComputed
      have bodyCode := onBody.code g fromLast
      rw [toBody.place] at bodyCode
      simp only [CodeAt]
      exact ⟨o, _, f.first, f.second, f.third, _, toTest.term g fromTest _ forks.place,
        lowers.computes_at toTest.place fromComputed,
        toBody.term g fromBody _ (lowers.emits.place _ toTest.place).1, bodyCode,
        toExit.term g precedes, toExit.place⟩

theorem translates (slots : List NodeId) (s : Stmt) : Translates slots s := by
  induction s using induction with
  | absent =>
    intro env st st' ran follows _ _
    cases ran
    refine .idle follows rfl rfl fun g p => ?_
    cases p <;> simp [CodeAt]
  | bare node =>
    intro env st st' ran follows unopened _
    cases stmt_run ran with
    | bare pushed popped =>
      obtain ⟨follows₁, scopes₁, builder₁⟩ :=
        follows.push (unopened.closed node.id (by simp)) pushed
      obtain ⟨follows₂, scopes₂, builder₂⟩ := follows₁.pop popped
      refine .idle follows₂ (by rw [scopes₂, scopes₁, tail_cons])
        (builder₂.trans builder₁) fun g p => ?_
      cases p <;> simp [CodeAt]
  | block node stmts each => exact translates_block node each
  | decl node mutable name type value => exact translates_decl node mutable name type value
  | assign node target value => exact translates_assign node target value
  | ret node value => exact translates_ret node value
  | cond node test yes no yesIH noIH => exact translates_cond node test yesIH noIH
  | loop node test body bodyIH => exact translates_loop node test bodyIH
  | unknown node kind =>
    intro env st st' ran
    cases ran

theorem State.Fits.lowered (fits : st.Fits slots env s.nodeIds s.stored)
    (ran : stmt s st = .ok () st') :
    Lowered slots (s.declare env) s.closes s.stored (fun g => s.CodeAt g slots env) st st' :=
  translates slots s env st st' ran fits.follows fits.unopened fits.reserves

end Lowering

end MiddleEnd
