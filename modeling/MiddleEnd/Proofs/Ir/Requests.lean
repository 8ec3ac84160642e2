import MiddleEnd.Proofs.Ir.Soundness

/-!
A builder under any sequence of requests.
-/

namespace MiddleEnd.Ir

open List Option Builder

/-- What the instruction defines is recorded under the type of its result. A load from a slot that
was missing is recorded without type. -/
def Instr.Recorded (slots : List Slot) (values : List Ty) : Instr → Prop
  | .load dst src => at? values dst = some .void ∨
      ∃ slot, at? slots src = some slot ∧ at? values dst = some slot.type
  | .store _ _ => True
  | .binary dst _ left _ => at? values dst = some left.type
  | .compare dst _ _ _ => at? values dst = some .i1
  | .unary dst _ operand => at? values dst = some operand.type
  | .unknown _ _ => False

theorem Instr.Recorded.grow {instr : Instr} (recorded : instr.Recorded slots values)
    (moreSlots : List Slot) (more : List Ty) :
    instr.Recorded (slots ++ moreSlots) (values ++ more) := by
  cases instr with
  | load dst src =>
    rcases recorded with missing | ⟨slot, found, typed⟩
    · exact .inl (at?_append missing more)
    · exact .inr ⟨slot, at?_append found moreSlots, at?_append typed more⟩
  | store dst value => trivial
  | binary | compare | unary => exact at?_append recorded more
  | unknown dst kind => exact recorded

namespace Builder

inductive Request where
  | newBlock
  | select (id : BlockId)
  | alloc (name : Text) (type : Ty)
  | store (dst : LocalId) (value : Operand)
  | load (src : LocalId)
  | binary (op : BinOp) (left right : Operand)
  | compare (pred : CmpPred) (left right : Operand)
  | unary (op : UnOp) (operand : Operand)
  | goto (target : BlockId)
  | branch (cond : Operand) (yes no : BlockId)
  | ret (value : Operand)
  | retVoid
  | unreachable
  | finalize

inductive Answer where
  | done
  | block (id : BlockId)
  | slot (id : LocalId)
  | operand (operand : Operand)

namespace Request

def instr? : Request → Option (ValueId → Instr)
  | .store dst value => some fun _ => .store dst value
  | .load src => some fun dst => .load dst src
  | .binary op left right => some fun dst => .binary dst op left right
  | .compare pred left right => some fun dst => .compare dst pred left right
  | .unary op operand => some fun dst => .unary dst op operand
  | _ => none

def type? (slots : List Slot) : Request → Option Ty
  | .load src => some (((at? slots src).map Slot.type).getD .void)
  | .binary _ left _ => some left.type
  | .compare _ _ _ => some .i1
  | .unary _ operand => some operand.type
  | _ => none

def term? : Request → Option Terminator
  | .goto target => some (.goto target)
  | .branch cond yes no => some (.branch cond yes no)
  | .ret value => some (.ret (some value))
  | .retVoid => some (.ret none)
  | .unreachable => some .unreachable
  | _ => none

/-- The answer to a request for code, given the operand for a value of a type. -/
def answer (slots : List Slot) (operand : Ty → Operand) (r : Request) : Answer :=
  (r.type? slots).elim .done fun type => .operand (operand type)

end Request

def handle (b : Builder) : Request → Option (Builder × Answer)
  | .newBlock => some (b.newBlock.1, .block b.newBlock.2)
  | .select id => (b.select? id).map fun b => (b, .done)
  | .alloc name type => some ((b.alloc name type).1, .slot (b.alloc name type).2)
  | .store dst value => some (b.store dst value, .done)
  | .load src => some ((b.load src).1, .operand (b.load src).2)
  | .binary op left right => some ((b.binary op left right).1, .operand (b.binary op left right).2)
  | .compare pred left right =>
    some ((b.compare pred left right).1, .operand (b.compare pred left right).2)
  | .unary op operand => some ((b.unary op operand).1, .operand (b.unary op operand).2)
  | .goto target => some (b.terminate (.goto target), .done)
  | .branch cond yes no => some (b.terminate (.branch cond yes no), .done)
  | .ret value => some (b.terminate (.ret (some value)), .done)
  | .retVoid => some (b.terminate (.ret none), .done)
  | .unreachable => some (b.terminate .unreachable, .done)
  | .finalize => some (b.finalize, .done)

def handleAll : Builder → List Request → Option Builder
  | b, [] => some b
  | b, r :: rest => (b.handle r).bind fun handled => handled.1.handleAll rest

/-- All that a request can do. -/
inductive Moves (b : Builder) : Builder → Prop where
  | newBlock : Moves b b.newBlock.1
  | select (id : BlockId) : Moves b (b.select id)
  | alloc (name : Text) (type : Ty) : Moves b (b.alloc name type).1
  | ignore : Moves b b
  | store {p : Point} (place : b.place? = some p) (dst : LocalId) (value : Operand) :
      Moves b (b.append (.store dst value))
  | define {p : Point} (place : b.place? = some p) {type : Ty} {instr : ValueId → Instr}
      (defines : ∀ id, (instr id).defines = some id)
      (recorded : ∀ values id, at? values id = some type →
        (instr id).Recorded b.func.locals values) :
      Moves b (append { b with func := { b.func with values := b.func.values ++ [type] } }
        (instr b.func.values.length))
  | terminate {p : Point} (place : b.place? = some p) (term : Terminator) :
      Moves b (b.modifyBlock fun block => { block with term := term })
  | finalize : Moves b b.finalize

variable {b b' : Builder} {r : Request} {answer : Answer} {p : Point}

theorem moves_store (b : Builder) (dst : LocalId) (value : Operand) :
    b.Moves (b.store dst value) := by
  cases place : b.place? with
  | none =>
    rw [store, isTerminated_dead place, if_pos rfl]
    exact .ignore
  | some p =>
    rw [store, not_isTerminated place, if_neg Bool.false_ne_true]
    exact .store place dst value

theorem moves_define {instr : ValueId → Instr} (defines : ∀ id, (instr id).defines = some id)
    (recorded : ∀ values id, at? values id = some type → (instr id).Recorded b.func.locals values) :
    b.Moves (b.define type instr).1 := by
  cases place : b.place? with
  | none =>
    rw [define_dead place]
    exact .ignore
  | some p =>
    rw [define_eq place]
    exact .define place defines recorded

theorem moves_terminate (b : Builder) (term : Terminator) : b.Moves (b.terminate term) := by
  cases place : b.place? with
  | none =>
    rw [terminate_dead place]
    exact .ignore
  | some p =>
    rw [terminate, not_isTerminated place, if_neg Bool.false_ne_true]
    exact .terminate place term

theorem moves_load (b : Builder) (src : LocalId) : b.Moves (b.load src).1 := by
  apply moves_define (fun _ => rfl)
  intro values id typed
  cases found : at? b.func.locals src with
  | none =>
    rw [found] at typed
    exact .inl typed
  | some slot =>
    rw [found] at typed
    exact .inr ⟨slot, found, typed⟩

theorem moves_of_handle (handled : b.handle r = some (b', answer)) : b.Moves b' := by
  cases r with
  | newBlock =>
    cases handled
    exact .newBlock
  | select id =>
    simp only [handle, select?, Option.map_map, Option.map_eq_some_iff] at handled
    obtain ⟨block, -, same⟩ := handled
    cases same
    exact .select id
  | alloc name type =>
    cases handled
    exact .alloc name type
  | store dst value =>
    cases handled
    exact b.moves_store dst value
  | load src =>
    cases handled
    exact b.moves_load src
  | binary | compare | unary =>
    cases handled
    exact moves_define (fun _ => rfl) fun _ _ typed => typed
  | goto | branch | ret | retVoid | unreachable =>
    cases handled
    exact b.moves_terminate _
  | finalize =>
    cases handled
    exact .finalize

/-- Whatever has been asked for, blocks and values are numbered as they came and the first block is
the entry. -/
structure Disciplined (b : Builder) : Prop where
  numbered : b.func.Numbered
  entry : b.func.entry = if b.func.blocks.length = 0 then noId else 0
  defines : b.func.DefinesEach
  recorded : ∀ block ∈ b.func.blocks, ∀ instr ∈ block.instrs,
    instr.Recorded b.func.locals b.func.values

theorem Disciplined.start (name : Text) (result : Ty) (params : List Ty) :
    (start name result params).Disciplined where
  numbered i block found := by cases found
  entry := rfl
  defines := ⟨nodup_nil, fun id => by simp [Builder.start, Func.definitions, at?]⟩
  recorded block member := by cases member

/-- Changing the selected block, next to more values. -/
theorem Disciplined.change (disciplined : b.Disciplined) (place : b.place? = some p)
    (update : Block → Block) (ids : ∀ block, (update block).id = block.id)
    (locals : b'.func.locals = b.func.locals) (values : b'.func.values = b.func.values ++ more)
    (blocks : b'.func.blocks = (b.modifyBlock update).func.blocks)
    (entry : b'.func.entry = b.func.entry)
    (code : ∀ block, ∀ instr ∈ (update block).instrs, instr ∈ block.instrs ∨
      instr.Recorded b.func.locals (b.func.values ++ more)) (defines : b'.func.DefinesEach) :
    b'.Disciplined where
  numbered i block found := by
    rw [blocks] at found
    exact numbered_modifyBlock disciplined.numbered ids i block found
  entry := by
    rw [entry, disciplined.entry, blocks, modifyBlock, length_modify]
  defines := defines
  recorded block member instr isInstr := by
    have before : ∀ block ∈ b.func.blocks, ∀ instr ∈ block.instrs,
        instr.Recorded b.func.locals (b.func.values ++ more) := by
      intro block earlier instr isInstr
      have grown := (disciplined.recorded block earlier instr isInstr).grow [] more
      rwa [append_nil] at grown
    rw [locals, values]
    rw [blocks] at member
    rcases mem_modifyBlock place member with earlier | ⟨block', earlier, -, -, rfl⟩
    · exact before block earlier instr isInstr
    · exact (code block' instr isInstr).elim (before block' earlier instr) id

theorem Disciplined.newBlock (disciplined : b.Disciplined) : b.newBlock.1.Disciplined where
  numbered := numbered_newBlock disciplined.numbered
  entry := by
    simp only [Builder.newBlock, disciplined.entry, length_append, length_singleton]
    by_cases empty : b.func.blocks.length = 0
    · simp [empty]
    · simp [empty, noId]
  defines := definesEach_newBlock disciplined.defines
  recorded block member := by
    rcases mem_append.mp member with earlier | new
    · exact disciplined.recorded block earlier
    · rw [mem_singleton.mp new]
      intro instr isInstr
      cases isInstr

theorem Disciplined.finalize (disciplined : b.Disciplined) : b.finalize.Disciplined where
  numbered := numbered_finalize disciplined.numbered
  entry := by
    simp only [Builder.finalize, length_map]
    exact disciplined.entry
  defines := definesEach_finalize disciplined.defines
  recorded block' member := by
    obtain ⟨block, earlier, code, -⟩ := closed_finalize member
    rw [code]
    exact disciplined.recorded block earlier

theorem Disciplined.move (disciplined : b.Disciplined) (moves : b.Moves b') : b'.Disciplined := by
  have same := (append_nil b.func.values).symm
  cases moves with
  | newBlock => exact disciplined.newBlock
  | select id =>
    exact ⟨disciplined.numbered, disciplined.entry, disciplined.defines.perm rfl (.refl _),
      disciplined.recorded⟩
  | alloc name type =>
    refine ⟨disciplined.numbered, disciplined.entry, disciplined.defines.perm rfl (.refl _), ?_⟩
    intro block member instr isInstr
    have grown := (disciplined.recorded block member instr isInstr).grow [⟨type, name⟩] []
    rwa [append_nil] at grown
  | ignore => exact disciplined
  | store place dst value =>
    refine disciplined.change place (fun block =>
      { block with instrs := block.instrs ++ [.store dst value] }) (fun _ => rfl) rfl same rfl rfl
      ?_ ?_
    · intro block instr isInstr
      rcases mem_append.mp isInstr with earlier | new
      · exact .inl earlier
      · rw [mem_singleton.mp new]
        exact .inr trivial
    · exact definesEach_modifyBlock disciplined.defines place fun block => by
        simp [defined, Instr.defines]
  | @define _ place type instr defines recorded =>
    refine disciplined.change place (fun block =>
      { block with instrs := block.instrs ++ [instr b.func.values.length] }) (fun _ => rfl) rfl rfl
      rfl rfl ?_ (definesEach_define disciplined.defines place type defines)
    intro block instr' isInstr
    rcases mem_append.mp isInstr with earlier | new
    · exact .inl earlier
    · rw [mem_singleton.mp new]
      exact .inr (recorded _ _ (by simp))
  | terminate place term =>
    refine disciplined.change place (fun block => { block with term := term }) (fun _ => rfl) rfl
      same rfl rfl (fun _ _ => .inl) ?_
    exact definesEach_modifyBlock disciplined.defines place fun _ => rfl
  | finalize => exact disciplined.finalize

/-- A block that has ended stays as it is. -/
theorem Moves.block? (moves : b.Moves b') {id : BlockId} (found : b.func.block? id = some block)
    (ended : block.term ≠ .pending) : b'.func.block? id = some block := by
  have aside : ∀ {p}, b.place? = some p → ∀ update,
      (b.modifyBlock update).func.block? id = some block := by
    intro p place update
    obtain ⟨current, open', found', -, pending⟩ := place?_eq_some.mp place
    rw [current] at found'
    rw [block?_modifyBlock found', if_neg, found]
    rintro rfl
    cases found.symm.trans found'
    exact ended pending
  cases moves with
  | newBlock => exact at?_append found _
  | select | alloc | ignore => exact found
  | store place | define place | terminate place => exact aside place _
  | finalize =>
    have notPending : block.term.isPending = false := by
      rw [← Bool.not_eq_true, isPending_iff]
      exact ended
    rw [Func.block?, Builder.finalize, at?_map]
    change (b.func.block? id).map _ = _
    rw [found, map_some, notPending]
    rfl

theorem Disciplined.handleAll (disciplined : b.Disciplined)
    (handled : b.handleAll requests = some b') : b'.Disciplined := by
  induction requests generalizing b with
  | nil =>
    cases handled
    exact disciplined
  | cons r rest ih =>
    obtain ⟨⟨middle, answer⟩, first, later⟩ := bind_eq_some_iff.mp handled
    exact ih (disciplined.move (moves_of_handle first)) later

theorem handleAll_block? (handled : b.handleAll requests = some b') {id : BlockId}
    (found : b.func.block? id = some block) (ended : block.term ≠ .pending) :
    b'.func.block? id = some block := by
  induction requests generalizing b with
  | nil =>
    cases handled
    exact found
  | cons r rest ih =>
    obtain ⟨⟨middle, answer⟩, first, later⟩ := bind_eq_some_iff.mp handled
    exact ih later ((moves_of_handle first).block? found ended)

/-- How the next request is answered. -/
structure Responds (b : Builder) : Prop where
  fails : ∀ r, b.handle r = none ↔ ∃ id, r = .select id ∧ b.func.block? id = none
  opens : ∃ b', b.handle .newBlock = some (b', .block b.func.blocks.length) ∧
    b'.func.blocks = b.func.blocks ++ [⟨b.func.blocks.length, [], .pending⟩]
  selects : ∀ id block, b.func.block? id = some block →
    ∃ b', b.handle (.select id) = some (b', .done) ∧ b'.func = b.func ∧
      b'.currentBlock? = some block
  allots : ∀ name type, ∃ b',
    b.handle (.alloc name type) = some (b', .slot b.func.locals.length) ∧
      b'.func.locals = b.func.locals ++ [⟨type, name⟩]
  ignores : (∀ block, b.currentBlock? = some block → block.term ≠ .pending) →
    ∀ r, r.instr?.isSome ∨ r.term?.isSome →
      b.handle r = some (b, r.answer b.func.locals .undef)
  emits : ∀ block, b.currentBlock? = some block → block.term = .pending →
    ∀ r instr, r.instr? = some instr → ∃ b',
      b.handle r = some (b', r.answer b.func.locals (.value b.func.values.length)) ∧
      b'.func.values = b.func.values ++ (r.type? b.func.locals).toList ∧
      ∀ id, b'.func.block? id = if id = b.current
        then some { block with instrs := block.instrs ++ [instr b.func.values.length] }
        else b.func.block? id
  ends : ∀ block, b.currentBlock? = some block → block.term = .pending →
    ∀ r term, r.term? = some term → ∃ b', b.handle r = some (b', .done) ∧
      ∀ id, b'.func.block? id = if id = b.current
        then some { block with term := term }
        else b.func.block? id

theorem handle_dead (dead : b.place? = none) (asks : r.instr?.isSome ∨ r.term?.isSome) :
    b.handle r = some (b, r.answer b.func.locals .undef) := by
  cases r with
  | store => simp only [handle, store, isTerminated_dead dead, if_true]; rfl
  | load | binary | compare | unary =>
    simp only [handle, load, binary, compare, unary, define_dead dead]
    rfl
  | goto | branch | ret | retVoid | unreachable => simp only [handle, terminate_dead dead]; rfl
  | newBlock | select | alloc | finalize => cases asks <;> contradiction

theorem handle_instr (place : b.place? = some p) {instr : ValueId → Instr}
    (asks : r.instr? = some instr) :
    b.handle r = some
      (append { b with func := { b.func with
        values := b.func.values ++ (r.type? b.func.locals).toList } }
        (instr b.func.values.length), r.answer b.func.locals (.value b.func.values.length)) := by
  cases r with
  | store =>
    cases asks
    simp only [handle, store, not_isTerminated place, Request.type?, toList_none, append_nil]
    rfl
  | load | binary | compare | unary =>
    cases asks
    simp only [handle, load, binary, compare, unary, define_eq place]
    rfl
  | _ => cases asks

theorem handle_term (place : b.place? = some p) (asks : r.term? = some term) :
    b.handle r = some (b.modifyBlock fun block => { block with term := term }, .done) := by
  have live := not_isTerminated place
  cases r with
  | goto | branch | ret | retVoid | unreachable =>
    cases asks
    simp only [handle, terminate, live]
    rfl
  | _ => cases asks

theorem responds (b : Builder) : b.Responds := by
  have place : ∀ {block}, b.currentBlock? = some block → block.term = .pending →
      b.place? = some ⟨b.current, block.instrs.length⟩ := by
    intro block found pending
    exact place?_eq_some.mpr ⟨rfl, block, found, rfl, pending⟩
  constructor
  · intro r
    cases r <;> simp [handle, select?]
  · exact ⟨_, rfl, rfl⟩
  · intro id block found
    refine ⟨b.select id, ?_, rfl, found⟩
    rw [handle, select?, found]
    rfl
  · exact fun name type => ⟨_, rfl, rfl⟩
  · intro closed r asks
    apply handle_dead _ asks
    cases opened : b.place? with
    | none => rfl
    | some p =>
      obtain ⟨current, block, found, -, pending⟩ := place?_eq_some.mp opened
      rw [current] at found
      exact absurd pending (closed block found)
  · intro block found pending r instr asks
    refine ⟨_, handle_instr (place found pending) asks, rfl, fun id => ?_⟩
    exact block?_modifyBlock found _ id
  · intro block found pending r term asks
    exact ⟨_, handle_term (place found pending) asks, block?_modifyBlock found _⟩

end Builder

/-- After any requests, blocks are numbered as they were created and each value is defined once
under its recorded type. Requests at no open block change nothing, and blocks that have ended never
change again. -/
theorem builder_keeps_discipline {name : Text} {result : Ty} {params : List Ty}
    {requests : List Request} {b : Builder}
    (handled : (start name result params).handleAll requests = some b) :
    b.Disciplined ∧ b.Responds ∧
    (∀ more b', b.handleAll more = some b' → ∀ id block, b.func.block? id = some block →
      block.term ≠ .pending → b'.func.block? id = some block) ∧
    ∃ b', b.handle .finalize = some (b', .done) ∧
      ∀ block ∈ b'.func.blocks, block.term ≠ .pending := by
  refine ⟨(Disciplined.start name result params).handleAll handled, b.responds, ?_, _, rfl,
    ?_⟩
  · exact fun more b' later id block => handleAll_block? later
  · intro block' member
    obtain ⟨block, -, -, ⟨same, ended⟩ | same⟩ := closed_finalize member
    · rw [same]
      exact ended
    · simp [same]

/-- Reads a slot before there is one, goes back to a block that was left open, and goes on asking
behind a jump and behind the end. -/
def interrupted : List Request :=
  [.load 0, .newBlock, .select 0, .load 0, .alloc "x" .i32, .store 0 (.int 7), .newBlock, .select 1,
    .load 0, .select 0, .goto 1, .unreachable, .store 0 (.int 8), .finalize, .select 1, .retVoid]

theorem interrupted_keeps_discipline :
    ∃ b, (start "f" .void []).handleAll interrupted = some b ∧
      b.func.blocks =
        [⟨0, [.load 0 0, .store 0 (.int 7)], .goto 1⟩, ⟨1, [.load 1 0], .unreachable⟩] ∧
      b.func.values = [.void, .i32] ∧ b.Disciplined ∧ b.Responds := by
  have handled : (start "f" .void []).handleAll interrupted = some _ := rfl
  obtain ⟨disciplined, responds, -⟩ := builder_keeps_discipline handled
  exact ⟨_, handled, rfl, rfl, disciplined, responds⟩

end MiddleEnd.Ir
