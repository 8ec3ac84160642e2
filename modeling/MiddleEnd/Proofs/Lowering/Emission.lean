import MiddleEnd.Proofs.Ir.Validity
import MiddleEnd.Proofs.Lowering.Code

/-!
How a function grows under construction: code is only added behind the code of the selected block.
-/

namespace MiddleEnd.Ir

open List

theorem at?_modify {α : Type} (xs : List α) (i : Nat) (change : α → α) (position : Int) :
    at? (xs.modify i change) position =
      if position = i then xs[i]?.map change else at? xs position := by
  by_cases same : position = i
  · subst same
    rw [at?_natCast, List.getElem?_modify, if_pos rfl]
    simp
  · unfold at?
    rw [if_neg same]
    split
    · rfl
    · have distinct : ¬ i = position.toNat := by omega
      simp [distinct]

theorem at?_append {α : Type} {xs : List α} {position : Int} {x : α}
    (found : at? xs position = some x) (ys : List α) : at? (xs ++ ys) position = some x := by
  obtain ⟨i, rfl, member⟩ := at?_eq_some found
  rw [at?_natCast] at found ⊢
  rw [List.getElem?_append_left (List.getElem?_eq_some_iff.mp found).1, found]

namespace Func

variable {f : Func}

theorem HasCode.nil (hasTerm : f.HasTerm p term) : f.HasCode p [] := by
  obtain ⟨b, found, -, -⟩ := hasTerm
  exact ⟨b, found, nil_prefix⟩

theorem HasCode.append (first : f.HasCode p code) (second : f.HasCode (p.skip code.length) more) :
    f.HasCode p (code ++ more) := by
  obtain ⟨b, found, rest, split⟩ := first
  obtain ⟨b', found', behind⟩ := second
  cases found.symm.trans found'
  rw [Point.skip, ← drop_drop, ← split, drop_left] at behind
  refine ⟨b, found, ?_⟩
  rw [← split]
  exact prefix_append_right_inj code |>.mpr behind

/-- Function `g` still has all code and all terminators of `f`. -/
structure Precedes (f g : Func) : Prop where
  code : ∀ p code, f.HasCode p code → g.HasCode p code
  term : ∀ p term, f.HasTerm p term → term ≠ .pending → g.HasTerm p term

theorem Precedes.refl (f : Func) : f.Precedes f :=
  ⟨fun _ _ hasCode => hasCode, fun _ _ hasTerm _ => hasTerm⟩

theorem Precedes.trans {g : Func} (first : f.Precedes g) (second : g.Precedes h) : f.Precedes h :=
  ⟨fun p code hasCode => second.code p code (first.code p code hasCode),
    fun p term hasTerm closed => second.term p term (first.term p term hasTerm closed) closed⟩

theorem Precedes.of_blocks (same : ∀ id b, f.block? id = some b → g.block? id = some b) :
    f.Precedes g := by
  constructor
  · rintro p code ⟨b, found, rest⟩
    exact ⟨b, same _ b found, rest⟩
  · rintro p term ⟨b, found, rest⟩ -
    exact ⟨b, same _ b found, rest⟩

end Func

theorem mem_modify {α : Type} {xs : List α} {change : α → α} {x : α}
    (member : x ∈ xs.modify i change) : x ∈ xs ∨ ∃ y, xs[i]? = some y ∧ x = change y := by
  obtain ⟨j, found⟩ := List.getElem?_of_mem member
  rw [List.getElem?_modify] at found
  obtain ⟨y, here, same⟩ := Option.map_eq_some_iff.mp found
  split at same
  · next index =>
    subst index
    exact .inr ⟨y, here, same.symm⟩
  · exact .inl (same ▸ mem_of_getElem? here)

namespace Builder

/-- Where the next instruction goes, if requests are not ignored. -/
def place? (b : Builder) : Option Point :=
  match b.currentBlock? with
  | none => none
  | some block => if block.term.isPending then some ⟨b.current, block.instrs.length⟩ else none

variable {term : Terminator} {b : Builder} {p : Point}

theorem isPending_iff : term.isPending = true ↔ term = .pending := by
  cases term <;> simp [Terminator.isPending]

theorem place?_eq_some : b.place? = some p ↔ p.block = b.current ∧ b.func.HasTerm p .pending := by
  obtain ⟨id, index⟩ := p
  unfold place? currentBlock? Func.HasTerm
  constructor
  · intro placed
    split at placed
    · cases placed
    · next block found =>
      split at placed
      · next pending =>
        cases placed
        exact ⟨rfl, block, found, rfl, isPending_iff.mp pending⟩
      · cases placed
  · rintro ⟨rfl, block, found, rfl, pending⟩
    simp only at found
    simp [found, pending, Terminator.isPending]

theorem isTerminated_eq (b : Builder) : b.isTerminated = b.place?.isNone := by
  unfold isTerminated place?
  cases b.currentBlock? with
  | none => rfl
  | some block =>
    simp only
    cases block.term.isPending <;> rfl

/-- The block of the place is open, but not the selected one. -/
def Aside (b : Builder) (p : Point) : Prop := b.func.HasTerm p .pending ∧ p.block ≠ b.current

/-- Builder `b'` comes from `b` by requests that add code to the selected block or to blocks of
their own. -/
structure Grows (b b' : Builder) : Prop where
  precedes : b.func.Precedes b'.func
  aside : ∀ p, b.Aside p → b'.Aside p
  result : b'.func.result = b.func.result
  entry : b.func.entry ≠ noId → b'.func.entry = b.func.entry

theorem Grows.refl (b : Builder) : b.Grows b :=
  ⟨.refl _, fun _ aside => aside, rfl, fun _ => rfl⟩

theorem Grows.trans {b₁ b₃ : Builder} (first : b₁.Grows b₂) (second : b₂.Grows b₃) :
    b₁.Grows b₃ where
  precedes := first.precedes.trans second.precedes
  aside p aside := second.aside p (first.aside p aside)
  result := second.result.trans first.result
  entry known := by
    have same := first.entry known
    rw [second.entry (by rw [same]; exact known), same]

theorem block?_modifyBlock (found : b.currentBlock? = some block) (change : Block → Block)
    (id : BlockId) :
    (b.modifyBlock change).func.block? id =
      if id = b.current then some (change block) else b.func.block? id := by
  obtain ⟨i, current, found⟩ := at?_eq_some found
  simp only [Func.block?, modifyBlock, current, Int.toNat_natCast, at?_modify, found,
    Option.map_some]

theorem mem_modifyBlock (place : b.place? = some p) {change : Block → Block} {block' : Block}
    (member : block' ∈ (b.modifyBlock change).func.blocks) :
    block' ∈ b.func.blocks ∨ ∃ block ∈ b.func.blocks, b.currentBlock? = some block ∧
      block.term = .pending ∧ block' = change block := by
  obtain ⟨current, block, found, -, pending⟩ := place?_eq_some.mp place
  rw [current] at found
  obtain ⟨i, same, here⟩ := at?_eq_some found
  simp only [Builder.modifyBlock, same, Int.toNat_natCast] at member
  rcases mem_modify member with earlier | ⟨y, here', rfl⟩
  · exact .inl earlier
  · cases here.symm.trans here'
    exact .inr ⟨block, mem_of_getElem? here, found, pending, rfl⟩

theorem grows_modifyBlock (place : b.place? = some p) {change : Block → Block}
    (keeps : ∀ block, block.instrs <+: (change block).instrs) : b.Grows (b.modifyBlock change) := by
  obtain ⟨current, block, found, -, pending⟩ := place?_eq_some.mp place
  rw [current] at found
  have blocks := block?_modifyBlock found change
  refine ⟨⟨?_, ?_⟩, ?_, rfl, fun _ => rfl⟩
  · rintro p' code ⟨block', found', hasCode⟩
    by_cases same : p'.block = b.current
    · rw [same, found] at found'
      cases found'
      obtain ⟨rest, split⟩ := keeps block
      refine ⟨change block, by rw [blocks, if_pos same], hasCode.trans ?_⟩
      rw [← split, drop_append]
      exact prefix_append _ _
    · exact ⟨block', by rw [blocks, if_neg same, found'], hasCode⟩
  · rintro p' term ⟨block', found', index, rfl⟩ closed
    have other : p'.block ≠ b.current := by
      intro same
      rw [same, found] at found'
      cases found'
      exact closed pending
    exact ⟨block', by rw [blocks, if_neg other, found'], index, rfl⟩
  · rintro p' ⟨⟨block', found', rest⟩, other⟩
    exact ⟨⟨block', by rw [blocks, if_neg other, found'], rest⟩, other⟩

theorem grows_of_blocks {b b' : Builder} (blocks : b'.func.blocks = b.func.blocks)
    (current : b'.current = b.current) (result : b'.func.result = b.func.result)
    (entry : b'.func.entry = b.func.entry) : b.Grows b' ∧ b'.place? = b.place? := by
  have same : ∀ id, b'.func.block? id = b.func.block? id := fun id => by
    rw [Func.block?, blocks, Func.block?]
  refine ⟨⟨.of_blocks fun id block found => by rw [same, found], ?_, result, fun _ => entry⟩, ?_⟩
  · rintro p ⟨⟨block, found, rest⟩, other⟩
    exact ⟨⟨block, by rw [same, found], rest⟩, by rw [current]; exact other⟩
  · simp only [place?, currentBlock?, current, same]

/-- Builder `b'` comes from `b` by adding this code to the selected block. -/
structure Emits (b b' : Builder) (code : List Instr) : Prop where
  grows : b.Grows b'
  locals : b'.func.locals = b.func.locals
  place : ∀ p, b.place? = some p →
    b'.place? = some (p.skip code.length) ∧ b'.func.HasCode p code

theorem Emits.nil (b : Builder) : b.Emits b [] :=
  ⟨.refl b, rfl, fun _ place => ⟨place, .nil (place?_eq_some.mp place).2⟩⟩

theorem Emits.trans {b₁ b₃ : Builder} (first : b₁.Emits b₂ code) (second : b₂.Emits b₃ more) :
    b₁.Emits b₃ (code ++ more) where
  grows := first.grows.trans second.grows
  locals := second.locals.trans first.locals
  place p place := by
    obtain ⟨middle, code⟩ := first.place p place
    obtain ⟨last, more⟩ := second.place _ middle
    refine ⟨?_, (second.grows.precedes.code _ _ code).append more⟩
    rw [last, Point.skip, Point.skip, Point.skip, length_append, Nat.add_assoc]

theorem emits_append (place : b.place? = some p) (instr : Instr) :
    b.Emits (b.append instr) [instr] where
  grows := grows_modifyBlock place fun block => prefix_append _ _
  locals := rfl
  place p' place' := by
    cases place.symm.trans place'
    obtain ⟨current, block, found, index, pending⟩ := place?_eq_some.mp place
    rw [current] at found
    have blocks := block?_modifyBlock found
      (fun block => { block with instrs := block.instrs ++ [instr] }) p.block
    rw [if_pos current] at blocks
    refine ⟨place?_eq_some.mpr ⟨current, _, blocks, ?_, pending⟩, _, blocks, ?_⟩
    · simp [Point.skip, index]
    · simp [← index]

section Live

variable {b : Builder} {p : Point} (place : b.place? = some p)

include place

theorem not_isTerminated : b.isTerminated = false := by
  rw [isTerminated_eq, place]
  rfl

theorem define_eq (type : Ty) (instr : ValueId → Instr) :
    b.define type instr =
      (append { b with func := { b.func with values := b.func.values ++ [type] } }
        (instr b.func.values.length), .value b.func.values.length type) := by
  rw [define, not_isTerminated place, if_neg Bool.false_ne_true]

theorem define_live (type : Ty) (instr : ValueId → Instr) :
    (b.define type instr).2 = .value b.func.values.length type ∧
      (b.define type instr).1.func.values.length = b.func.values.length + 1 ∧
      b.Emits (b.define type instr).1 [instr b.func.values.length] := by
  obtain ⟨grows, samePlace⟩ := @grows_of_blocks b
    { b with func := { b.func with values := b.func.values ++ [type] } } rfl rfl rfl rfl
  rw [define, not_isTerminated place, if_neg Bool.false_ne_true]
  refine ⟨rfl, by simp [append, modifyBlock], ?_⟩
  have appended := emits_append (samePlace.trans place) (instr b.func.values.length)
  exact ⟨grows.trans appended.grows, appended.locals, fun p' place' =>
    appended.place p' (samePlace.trans place')⟩

theorem store_live (slot : LocalId) (value : Operand) :
    b.Emits (b.store slot value) [.store slot value] := by
  simp only [store, not_isTerminated place, Bool.false_eq_true, if_false]
  exact emits_append place _

theorem terminate_live (closing : term ≠ .pending) :
    b.Grows (b.terminate term) ∧ (b.terminate term).func.locals = b.func.locals ∧
      (b.terminate term).place? = none ∧ (b.terminate term).func.HasTerm p term := by
  simp only [terminate, not_isTerminated place, Bool.false_eq_true, if_false]
  obtain ⟨current, block, found, index, -⟩ := place?_eq_some.mp place
  rw [current] at found
  have blocks := block?_modifyBlock found (fun block => { block with term := term }) p.block
  rw [if_pos current] at blocks
  refine ⟨grows_modifyBlock place fun block => prefix_refl _, rfl, ?_, _, blocks, index, rfl⟩
  cases placed : (b.modifyBlock fun block => { block with term := term }).place? with
  | none => rfl
  | some p' =>
    obtain ⟨current', block', found', -, pending⟩ := place?_eq_some.mp placed
    have sameBlock : p'.block = p.block := current'.trans current.symm
    rw [sameBlock, blocks] at found'
    cases found'
    exact absurd pending closing

theorem newBlock_live :
    b.Grows b.newBlock.1 ∧ b.newBlock.1.func.locals = b.func.locals ∧
      b.newBlock.1.place? = some p ∧ b.newBlock.1.Aside ⟨b.newBlock.2, 0⟩ ∧
      ∀ p', b.Aside p' → p'.block ≠ b.newBlock.2 := by
  have kept : ∀ id block, b.func.block? id = some block →
      b.newBlock.1.func.block? id = some block := fun id block found => at?_append found _
  have fresh : ∀ id block, b.func.block? id = some block → id ≠ b.newBlock.2 := by
    intro id block found
    have bound := (at?_isSome_iff.mp (Option.isSome_iff_exists.mpr ⟨block, found⟩)).2
    exact Int.ne_of_lt bound
  obtain ⟨current, block, found, rest⟩ := place?_eq_some.mp place
  have added : b.newBlock.1.func.block? b.newBlock.2 = some ⟨b.newBlock.2, [], .pending⟩ := by
    simp [newBlock, Func.block?]
  refine ⟨⟨.of_blocks kept, ?_, rfl, ?_⟩, rfl, ?_, ⟨⟨_, added, rfl, rfl⟩, ?_⟩, ?_⟩
  · rintro p' ⟨⟨block', found', rest'⟩, other⟩
    exact ⟨⟨block', kept _ _ found', rest'⟩, other⟩
  · intro known
    simp only [newBlock, if_neg known]
  · exact place?_eq_some.mpr ⟨current, block, kept _ _ found, rest⟩
  · rw [current] at found
    exact (fresh _ _ found).symm
  · rintro p' ⟨⟨block', found', -⟩, -⟩
    exact fresh _ _ found'

theorem alloc_live (name : Text) (type : Ty) :
    b.Grows (b.alloc name type).1 ∧ (b.alloc name type).1.place? = some p ∧
      (b.alloc name type).1.func.locals.length = b.func.locals.length + 1 := by
  obtain ⟨grows, samePlace⟩ := @grows_of_blocks b (b.alloc name type).1 rfl rfl rfl rfl
  exact ⟨grows, samePlace.trans place, by simp [alloc]⟩

end Live

section Dead

variable {b : Builder} (dead : b.place? = none)

include dead

theorem isTerminated_dead : b.isTerminated = true := by
  rw [isTerminated_eq, dead]
  rfl

theorem define_dead (type : Ty) (instr : ValueId → Instr) :
    b.define type instr = (b, .undef type) := by
  simp only [define, isTerminated_dead dead, if_true]

theorem terminate_dead (term : Terminator) : b.terminate term = b := by
  simp only [terminate, isTerminated_dead dead, if_true]

end Dead

theorem terminate_grows (b : Builder) (closing : term ≠ .pending) :
    b.Grows (b.terminate term) ∧ (b.terminate term).func.locals = b.func.locals ∧
      ∀ p, b.place? = some p → (b.terminate term).func.HasTerm p term := by
  cases place : b.place? with
  | none =>
    rw [terminate_dead place]
    exact ⟨.refl b, rfl, by simp⟩
  | some p =>
    obtain ⟨grows, locals, -, hasTerm⟩ := terminate_live place closing
    refine ⟨grows, locals, ?_⟩
    rintro _ ⟨⟩
    exact hasTerm

theorem locals_store (b : Builder) (slot : LocalId) (o : Operand) :
    (b.store slot o).func.locals = b.func.locals := by
  unfold Builder.store
  split <;> rfl

theorem locals_terminate (b : Builder) (term : Terminator) :
    (b.terminate term).func.locals = b.func.locals := by
  unfold Builder.terminate
  split <;> rfl

/-- Closes the selected block, if it is open, and selects another one. -/
def leave (b : Builder) (term : Terminator) (id : BlockId) : Builder :=
  (b.terminate term).select id

/-- The other block is taken up from its start, and control that came to the end of the first one
takes the terminator. -/
structure Leaves (b : Builder) (term : Terminator) (id : BlockId) (b' : Builder) : Prop where
  place : b'.place? = some ⟨id, 0⟩
  locals : b'.func.locals = b.func.locals
  precedes : b.func.Precedes b'.func
  aside : ∀ p, b.Aside p → p.block ≠ id → b'.Aside p
  term : ∀ g, b'.func.Precedes g → ∀ p, b.place? = some p → g.HasTerm p term

theorem leaves {id : BlockId} (aside : b.Aside ⟨id, 0⟩) (closing : term ≠ .pending) :
    b.Leaves term id (b.leave term id) := by
  obtain ⟨grows, locals, hasTerm⟩ := b.terminate_grows closing
  exact ⟨place?_eq_some.mpr ⟨rfl, (grows.aside _ aside).1⟩, locals, grows.precedes,
    fun p aside other => ⟨(grows.aside p aside).1, other⟩,
    fun g precedes p place => precedes.term _ _ (hasTerm p place) closing⟩

theorem Grows.leave {b' : Builder} (grows : b.Grows b') {id : BlockId} (closing : term ≠ .pending)
    (fresh : ∀ p, b.Aside p → p.block ≠ id) : b.Grows (b'.leave term id) := by
  obtain ⟨growsTerm, -, -⟩ := b'.terminate_grows closing
  have whole := grows.trans growsTerm
  exact ⟨whole.precedes, fun p aside => ⟨(whole.aside p aside).1, fresh p aside⟩, whole.result,
    whole.entry⟩

structure Fork where
  builder : Builder
  first : BlockId
  second : BlockId
  third : BlockId

/-- Two new blocks, and a third one unless the second can take its place. -/
def fork (b : Builder) (short : Bool) : Fork :=
  let one := b.newBlock
  let two := one.1.newBlock
  if short then ⟨two.1, one.2, two.2, two.2⟩
  else
    let three := two.1.newBlock
    ⟨three.1, one.2, two.2, three.2⟩

/-- The new blocks are open and differ from each other and from all blocks set aside before. -/
structure Forks (b : Builder) (p : Point) (short : Bool) (f : Fork) : Prop where
  grows : b.Grows f.builder
  locals : f.builder.func.locals = b.func.locals
  place : f.builder.place? = some p
  first : f.builder.Aside ⟨f.first, 0⟩
  second : f.builder.Aside ⟨f.second, 0⟩
  third : f.builder.Aside ⟨f.third, 0⟩
  second_ne_first : f.second ≠ f.first
  third_ne_first : f.third ≠ f.first
  third_ne_second : short = false → f.third ≠ f.second
  third_eq_second : short = true → f.third = f.second
  fresh : ∀ p', b.Aside p' → p'.block ≠ f.first ∧ p'.block ≠ f.second ∧ p'.block ≠ f.third

theorem forks (place : b.place? = some p) (short : Bool) : b.Forks p short (b.fork short) := by
  obtain ⟨grows₁, locals₁, place₁, aside₁, fresh₁⟩ := newBlock_live place
  obtain ⟨grows₂, locals₂, place₂, aside₂, fresh₂⟩ := newBlock_live place₁
  have distinct := fresh₂ _ aside₁
  cases short with
  | true =>
    refine ⟨grows₁.trans grows₂, locals₂.trans locals₁, place₂, grows₂.aside _ aside₁, aside₂,
      aside₂, distinct.symm, distinct.symm, by simp, fun _ => rfl, fun p' aside => ?_⟩
    exact ⟨fresh₁ p' aside, fresh₂ p' (grows₁.aside p' aside),
      fresh₂ p' (grows₁.aside p' aside)⟩
  | false =>
    obtain ⟨grows₃, locals₃, place₃, aside₃, fresh₃⟩ := newBlock_live place₂
    have first := grows₂.aside _ aside₁
    refine ⟨(grows₁.trans grows₂).trans grows₃, (locals₃.trans locals₂).trans locals₁, place₃,
      grows₃.aside _ first, grows₃.aside _ aside₂, aside₃, distinct.symm,
      (fresh₃ _ first).symm, fun _ => (fresh₃ _ aside₂).symm, by simp, fun p' aside => ?_⟩
    exact ⟨fresh₁ p' aside, fresh₂ p' (grows₁.aside p' aside),
      fresh₃ p' (grows₂.aside p' (grows₁.aside p' aside))⟩

theorem locals_leave (b : Builder) (term : Terminator) (id : BlockId) :
    (b.leave term id).func.locals = b.func.locals :=
  locals_terminate b term

end Builder

end MiddleEnd.Ir
