import MiddleEnd.Proofs.Ir.Typing
import MiddleEnd.Proofs.Lowering.Emission

/-!
Structurally sound block code. Validation of such code can only find that types do not go together.
-/

namespace MiddleEnd.Ir

open List Option

variable {before : List ValueId} {operand : Operand} {instr : Instr}

/-- A constant that its type can hold, or a value defined before, under the type recorded for it. -/
def Operand.Fits (values : List Ty) (before : List ValueId) : Operand → Prop
  | .undef _ => False
  | .const type n => type = .i1 ∧ (n = 0 ∨ n = 1) ∨
      type = .i32 ∧ -2147483648 ≤ n ∧ n ≤ 2147483647
  | .value id type => id ∈ before ∧ at? values id = some type

def Instr.Meaningful : Instr → Prop
  | .load _ _ | .store _ _ => True
  | .binary _ op _ _ => ∀ code, op ≠ .other code
  | .compare _ pred _ _ => ∀ code, pred ≠ .other code
  | .unary _ op _ => op = .not
  | .unknown _ _ => False

/-- A known operation on slots that exist, with the type recorded for its result. -/
def Instr.Fits (slots : List Slot) (values : List Ty) : Instr → Prop
  | .load dst src => ∃ slot, at? slots src = some slot ∧ at? values dst = some slot.type
  | .store dst _ => (at? slots dst).isSome
  | .binary dst op left _ => (∀ code, op ≠ .other code) ∧ at? values dst = some left.type
  | .compare dst pred _ _ => (∀ code, pred ≠ .other code) ∧ at? values dst = some .i1
  | .unary dst op operand => op = .not ∧ at? values dst = some operand.type
  | .unknown _ _ => False

/-- The operation has a meaning. It fits where what is known of slots can be trusted. -/
def Instr.FitsWhere (trusted : Prop) (slots : List Slot) (values : List Ty) (instr : Instr) :
    Prop :=
  instr.Meaningful ∧ (trusted → instr.Fits slots values)

variable {values : List Ty} {f g : Func} {trusted : Prop}

theorem Operand.Fits.mono (fits : operand.Fits values before) (subset : before ⊆ behind) :
    operand.Fits values behind := by
  cases operand with
  | undef type => exact fits
  | const type n => exact fits
  | value id type => exact ⟨subset fits.1, fits.2⟩

theorem Operand.Fits.grow (fits : operand.Fits values before) (more : List Ty) :
    operand.Fits (values ++ more) before := by
  cases operand with
  | undef type => exact fits
  | const type n => exact fits
  | value id type => exact ⟨fits.1, at?_append fits.2 more⟩

theorem Operand.Fits.typed (fits : operand.Fits values before) :
    operand.Typed values ∧ operand.DefinedIn before := by
  cases operand with
  | undef type => exact fits.elim
  | const type n => exact ⟨fits.imp And.left And.left, trivial⟩
  | value id type => exact ⟨fits.2, fits.1⟩

theorem Instr.Fits.grow (fits : instr.Fits slots values) (moreSlots : List Slot) (more : List Ty) :
    instr.Fits (slots ++ moreSlots) (values ++ more) := by
  cases instr with
  | load dst src =>
    obtain ⟨slot, found, result⟩ := fits
    exact ⟨slot, at?_append found _, at?_append result _⟩
  | store dst value =>
    obtain ⟨slot, found⟩ := isSome_iff_exists.mp fits
    exact isSome_iff_exists.mpr ⟨slot, at?_append found _⟩
  | binary dst op left right => exact ⟨fits.1, at?_append fits.2 _⟩
  | compare dst pred left right => exact ⟨fits.1, at?_append fits.2 _⟩
  | unary dst op operand => exact ⟨fits.1, at?_append fits.2 _⟩
  | unknown dst kind => exact fits

/-- The block is sound next to these slots and values and this number of blocks. -/
structure Block.Sound (trusted : Prop) (slots : List Slot) (values : List Ty) (count : Nat)
    (b : Block) : Prop where
  reads : Reads (Operand.Fits values) b.term [] b.instrs
  instrs : ∀ instr ∈ b.instrs, instr.FitsWhere trusted slots values
  targets : ∀ id ∈ b.term.successors, 0 ≤ id ∧ id < count
  known : ∀ kind, b.term ≠ .unknown kind

namespace Block.Sound

variable {slots : List Slot} {values : List Ty} {count : Nat} {b : Block}

theorem grow (sound : b.Sound trusted slots values count) (moreSlots : List Slot) (more : List Ty)
    (bound : count ≤ count') : b.Sound trusted (slots ++ moreSlots) (values ++ more) count' where
  reads := sound.reads.strengthen (fun _ _ _ _ _ fits => fits.grow more)
    fun _ _ _ fits => fits.grow more
  instrs instr member := ⟨(sound.instrs instr member).1, fun trust =>
    ((sound.instrs instr member).2 trust).grow moreSlots more⟩
  targets id member := ⟨(sound.targets id member).1,
    Int.lt_of_lt_of_le (sound.targets id member).2 (Int.ofNat_le.mpr bound)⟩
  known := sound.known

theorem append (sound : b.Sound trusted slots values count) (pending : b.term = .pending)
    (fits : instr.FitsWhere trusted slots values)
    (supplied : ∀ operand ∈ instr.operands, operand.Fits values (defined b.instrs)) :
    Block.Sound trusted slots values count { b with instrs := b.instrs ++ [instr] } where
  reads := by
    have reads := sound.reads
    rw [pending] at reads
    refine Reads.append.mpr ⟨reads, fun operand member => ?_, ?_⟩
    · exact (supplied operand member).mono (by intro id; simp)
    · simp [Reads, pending, Terminator.operands]
  instrs other member := by
    rcases mem_append.mp member with earlier | last
    · exact sound.instrs other earlier
    · exact mem_singleton.mp last ▸ fits
  targets := sound.targets
  known := sound.known

theorem terminate (sound : b.Sound trusted slots values count) (pending : b.term = .pending)
    {term : Terminator} (known : ∀ kind, term ≠ .unknown kind)
    (targets : ∀ id ∈ term.successors, 0 ≤ id ∧ id < count)
    (supplied : ∀ operand ∈ term.operands, operand.Fits values (defined b.instrs)) :
    Block.Sound trusted slots values count { b with term := term } where
  reads := by
    have reads := sound.reads
    rw [pending] at reads
    change Reads (Operand.Fits values) term [] b.instrs
    rw [← append_nil b.instrs]
    exact Reads.append.mpr ⟨reads, fun operand member =>
      (supplied operand member).mono (by intro id; simp)⟩
  instrs := sound.instrs
  targets := targets
  known := known

end Block.Sound

theorem flatMap_modify_perm {α β : Type} {xs : List α} {x : α} {change : α → α}
    {results : α → List β} {extra : List β} (found : xs[i]? = some x)
    (grown : results (change x) = results x ++ extra) :
    ((xs.modify i change).flatMap results).Perm (xs.flatMap results ++ extra) := by
  induction xs generalizing i with
  | nil => cases found
  | cons y rest ih =>
    cases i with
    | zero =>
      cases found
      simp only [modify_zero_cons, flatMap_cons, grown, append_assoc]
      exact perm_append_comm.append_left _
    | succ i =>
      simp only [modify_succ_cons, flatMap_cons, append_assoc]
      exact (ih found).append_left _

/-- Values are numbered as they are defined, each by one instruction. -/
structure Func.DefinesEach (f : Func) : Prop where
  once : f.definitions.Nodup
  all : ∀ id, id ∈ f.definitions ↔ (at? f.values id).isSome

theorem Func.DefinesEach.perm (defines : f.DefinesEach) (values : g.values = f.values)
    (definitions : g.definitions.Perm f.definitions) : g.DefinesEach :=
  ⟨definitions.nodup_iff.mpr defines.once, fun id => by
    rw [definitions.mem_iff, defines.all, values]⟩

theorem Func.DefinesEach.append (defines : f.DefinesEach) {type : Ty}
    (values : g.values = f.values ++ [type])
    (definitions : g.definitions.Perm (f.definitions ++ [(f.values.length : ValueId)])) :
    g.DefinesEach := by
  have fresh : (f.values.length : ValueId) ∉ f.definitions := by
    rw [defines.all, at?_isSome_iff]
    exact fun inside => Int.lt_irrefl _ inside.2
  constructor
  · rw [definitions.nodup_iff, nodup_append]
    refine ⟨defines.once, by simp, ?_⟩
    intro id member other last same
    rw [mem_singleton.mp last] at same
    exact fresh (same ▸ member)
  · intro id
    rw [definitions.mem_iff, mem_append, defines.all, mem_singleton, at?_isSome_iff,
      at?_isSome_iff, values]
    simp only [length_append, length_singleton, Int.natCast_add, Int.natCast_one]
    constructor
    · rintro (⟨nonneg, bound⟩ | rfl)
      · exact ⟨nonneg, Int.lt_add_one_of_le (Int.le_of_lt bound)⟩
      · exact ⟨Int.natCast_nonneg _, Int.lt_succ _⟩
    · rintro ⟨nonneg, bound⟩
      rcases Int.lt_or_eq_of_le (Int.le_of_lt_add_one bound) with below | last
      · exact .inl ⟨nonneg, below⟩
      · exact .inr last

namespace Builder

variable {b : Builder} {p : Point} {update : Block → Block}

theorem numbered_newBlock (numbered : b.func.Numbered) : b.newBlock.1.func.Numbered := by
  intro i block found
  simp only [Builder.newBlock, List.getElem?_append, List.getElem?_singleton] at found
  split at found
  · exact numbered i block found
  · split at found
    · have atEnd : b.func.blocks.length = i := by omega
      cases found
      exact congrArg Int.ofNat atEnd
    · cases found

theorem numbered_modifyBlock (numbered : b.func.Numbered)
    (ids : ∀ block, (update block).id = block.id) : (b.modifyBlock update).func.Numbered := by
  intro i block found
  rw [Builder.modifyBlock, List.getElem?_modify] at found
  obtain ⟨block', earlier, same⟩ := map_eq_some_iff.mp found
  have number := numbered i block' earlier
  split at same
  · rw [← same, ids, number]
  · rw [← same, number]

theorem numbered_finalize (numbered : b.func.Numbered) : b.finalize.func.Numbered := by
  intro i block found
  simp only [Builder.finalize, List.getElem?_map, map_eq_some_iff] at found
  obtain ⟨block', earlier, rfl⟩ := found
  have number := numbered i block' earlier
  split <;> exact number

theorem definitions_change (place : b.place? = some p)
    (update : Block → Block) {extra : List ValueId}
    (grown : ∀ block, defined (update block).instrs = defined block.instrs ++ extra) :
    (b.modifyBlock update).func.definitions.Perm (b.func.definitions ++ extra) := by
  obtain ⟨current, block, found, -⟩ := place?_eq_some.mp place
  obtain ⟨i, same, here⟩ := at?_eq_some found
  have selected : b.current.toNat = i := by rw [← current, same, Int.toNat_natCast]
  simp only [Builder.modifyBlock, Func.definitions, selected]
  exact flatMap_modify_perm here (grown block)

theorem definesEach_newBlock (defines : b.func.DefinesEach) : b.newBlock.1.func.DefinesEach := by
  refine defines.perm rfl ?_
  simp [Builder.newBlock, Func.definitions]

theorem definesEach_modifyBlock (defines : b.func.DefinesEach) (place : b.place? = some p)
    (same : ∀ block, defined (update block).instrs = defined block.instrs) :
    (b.modifyBlock update).func.DefinesEach := by
  refine defines.perm rfl ?_
  have definitions := @definitions_change b p place update [] fun block => by
    rw [same, append_nil]
  rwa [append_nil] at definitions

theorem definesEach_define (each : b.func.DefinesEach) (place : b.place? = some p) (type : Ty)
    {instr : ValueId → Instr} (defines : ∀ id, (instr id).defines = some id) :
    (append { b with func := { b.func with values := b.func.values ++ [type] } }
      (instr b.func.values.length)).func.DefinesEach := by
  refine each.append rfl ?_
  exact definitions_change place (fun block =>
    { block with instrs := block.instrs ++ [instr b.func.values.length] })
    fun block => by simp [defined, defines]

theorem definesEach_finalize (defines : b.func.DefinesEach) : b.finalize.func.DefinesEach := by
  refine defines.perm rfl ?_
  have same : b.finalize.func.definitions = b.func.definitions := by
    simp only [Func.definitions, Builder.finalize, flatMap_map]
    congr 1
    funext block
    split <;> rfl
  rw [same]

/-- All that has been built so far is sound. -/
structure Sound (trusted : Prop) (b : Builder) : Prop where
  numbered : ∀ (i : Nat) block, b.func.blocks[i]? = some block → block.id = i
  blocks : ∀ block ∈ b.func.blocks,
    block.Sound trusted b.func.locals b.func.values b.func.blocks.length
  defines : b.func.DefinesEach

/-- Where code is kept, the operand may be read. -/
def Supplies (b : Builder) (operand : Operand) : Prop :=
  ∀ block, b.currentBlock? = some block → block.term = .pending →
    operand.Fits b.func.values (defined block.instrs)

theorem supplies_dead (dead : b.place? = none) (operand : Operand) : b.Supplies operand := by
  intro block found pending
  have placed : b.place? = some ⟨b.current, block.instrs.length⟩ :=
    place?_eq_some.mpr ⟨rfl, block, found, rfl, pending⟩
  rw [dead] at placed
  cases placed

theorem Sound.newBlock (sound : b.Sound trusted) : b.newBlock.1.Sound trusted where
  numbered := numbered_newBlock sound.numbered
  blocks block member := by
    have longer : b.func.blocks.length ≤ b.newBlock.1.func.blocks.length := by
      simp [Builder.newBlock]
    rcases mem_append.mp member with earlier | new
    · have grown := (sound.blocks block earlier).grow [] [] longer
      rwa [append_nil, append_nil] at grown
    · rw [mem_singleton.mp new]
      exact ⟨by simp [Reads, Terminator.operands], by simp, by simp [Terminator.successors], by simp⟩
  defines := definesEach_newBlock sound.defines

theorem Sound.alloc (sound : b.Sound trusted) (name : Text) (type : Ty) :
    (b.alloc name type).1.Sound trusted where
  numbered := sound.numbered
  blocks block member := by
    have grown := (sound.blocks block member).grow [⟨type, name⟩] [] (Nat.le_refl _)
    rwa [append_nil] at grown
  defines := ⟨sound.defines.once, sound.defines.all⟩

theorem Sound.select (sound : b.Sound trusted) (id : BlockId) : (b.select id).Sound trusted :=
  ⟨sound.numbered, sound.blocks, ⟨sound.defines.once, sound.defines.all⟩⟩

theorem Sound.change {b' : Builder} (sound : b.Sound trusted) (place : b.place? = some p)
    (update : Block → Block) (ids : ∀ block, (update block).id = block.id)
    (locals : b'.func.locals = b.func.locals) (values : b'.func.values = b.func.values ++ more)
    (blocks : b'.func.blocks = (b.modifyBlock update).func.blocks)
    (keeps : ∀ block, b.currentBlock? = some block → block.term = .pending →
      block.Sound trusted b.func.locals (b.func.values ++ more) b.func.blocks.length →
      (update block).Sound trusted b.func.locals (b.func.values ++ more) b.func.blocks.length)
    (defines : b'.func.DefinesEach) : b'.Sound trusted where
  numbered i block found := by
    rw [blocks] at found
    exact numbered_modifyBlock sound.numbered ids i block found
  blocks block member := by
    have length : b'.func.blocks.length = b.func.blocks.length := by
      simp [blocks, Builder.modifyBlock]
    have before : ∀ block ∈ b.func.blocks,
        block.Sound trusted b.func.locals (b.func.values ++ more) b.func.blocks.length := by
      intro block earlier
      have grown := (sound.blocks block earlier).grow [] more (Nat.le_refl _)
      rwa [append_nil] at grown
    rw [locals, values, length]
    rw [blocks] at member
    rcases mem_modifyBlock place member with earlier | ⟨block', earlier, found, pending, rfl⟩
    · exact before block earlier
    · exact keeps block' found pending (before block' earlier)
  defines := defines

theorem Sound.define (sound : b.Sound trusted) (type : Ty) {instr : ValueId → Instr}
    (defines : ∀ id, (instr id).defines = some id)
    (fits : b.place?.isSome → ∀ values id, at? values id = some type →
      (instr id).FitsWhere trusted b.func.locals values)
    (supplied : ∀ id, ∀ operand ∈ (instr id).operands, b.Supplies operand) :
    (b.define type instr).1.Sound trusted ∧
      (b.define type instr).1.Supplies (b.define type instr).2 ∧
      ∀ operand, b.Supplies operand → (b.define type instr).1.Supplies operand := by
  cases place : b.place? with
  | none =>
    rw [define_dead place]
    exact ⟨sound, supplies_dead place _, fun _ supplies => supplies⟩
  | some p =>
    rw [define_eq place]
    obtain ⟨current, block, found, -, pending⟩ := place?_eq_some.mp place
    rw [current] at found
    have newest : at? (b.func.values ++ [type]) (b.func.values.length : Int) = some type := by simp
    have added : defined (block.instrs ++ [instr b.func.values.length]) =
        defined block.instrs ++ [(b.func.values.length : ValueId)] := by
      simp [defined, defines]
    have supplies : ∀ operand, operand.Fits (b.func.values ++ [type])
        (defined (block.instrs ++ [instr b.func.values.length])) →
        Supplies (append { b with func := { b.func with values := b.func.values ++ [type] } }
          (instr b.func.values.length)) operand := by
      intro operand fits block' found' _
      have changed := block?_modifyBlock found (fun block =>
        { block with instrs := block.instrs ++ [instr b.func.values.length] }) b.current
      rw [if_pos rfl] at changed
      cases changed.symm.trans found'
      exact fits
    rw [added] at supplies
    refine ⟨?_, supplies _ ⟨by simp, newest⟩, fun operand given => supplies _ ?_⟩
    · refine sound.change place (fun block =>
        { block with instrs := block.instrs ++ [instr b.func.values.length] }) (fun _ => rfl) rfl
        rfl rfl ?_ ?_
      · intro block' found' pending' before
        refine before.append pending' (fits (by simp [place]) _ _ newest) fun operand member => ?_
        exact (supplied _ operand member block' found' pending').grow [type]
      · exact definesEach_define sound.defines place type defines
    · exact ((given block found pending).grow [type]).mono (subset_append_left _ _)

theorem Sound.store {b : Builder} (sound : b.Sound trusted) {slot : LocalId} {value : Operand}
    (found : trusted → b.place?.isSome → (at? b.func.locals slot).isSome)
    (supplied : b.Supplies value) : (b.store slot value).Sound trusted := by
  cases place : b.place? with
  | none =>
    rw [Builder.store, isTerminated_dead place, if_pos rfl]
    exact sound
  | some p =>
    rw [Builder.store, not_isTerminated place, if_neg Bool.false_ne_true]
    have same := append_nil b.func.values
    refine sound.change place (fun block =>
      { block with instrs := block.instrs ++ [.store slot value] }) (fun _ => rfl) rfl same.symm rfl
      ?_ ?_
    · intro block found' pending before
      have fits := fun trust => found trust (by simp [place])
      refine before.append pending ⟨trivial, fits⟩ fun operand member => ?_
      rw [mem_singleton.mp member, same]
      exact supplied block found' pending
    · exact definesEach_modifyBlock sound.defines place fun block => by
        simp [defined, Instr.defines]

theorem Sound.terminate {b : Builder} (sound : b.Sound trusted) {term : Terminator}
    (known : ∀ kind, term ≠ .unknown kind)
    (targets : ∀ id ∈ term.successors, (b.func.block? id).isSome)
    (supplied : ∀ operand ∈ term.operands, b.Supplies operand) :
    (b.terminate term).Sound trusted := by
  cases place : b.place? with
  | none =>
    rw [terminate_dead place]
    exact sound
  | some p =>
    rw [Builder.terminate, not_isTerminated place, if_neg Bool.false_ne_true]
    have same := append_nil b.func.values
    refine sound.change place (fun block => { block with term := term }) (fun _ => rfl) rfl
      same.symm rfl ?_ ?_
    · intro block found pending before
      refine before.terminate pending known (fun id member => at?_isSome_iff.mp (targets id member))
        fun operand member => ?_
      rw [same]
      exact supplied operand member block found pending
    · exact definesEach_modifyBlock sound.defines place fun _ => rfl

theorem newBlock_supplies (place : b.place? = some p) (supplies : b.Supplies operand) :
    b.newBlock.1.Supplies operand := by
  obtain ⟨current, block, found, -, pending⟩ := place?_eq_some.mp place
  rw [current] at found
  intro block' found' _
  have kept : b.newBlock.1.currentBlock? = some block := at?_append found _
  cases kept.symm.trans found'
  exact supplies block found pending

theorem fork_supplies (place : b.place? = some p) (supplies : b.Supplies operand) (short : Bool) :
    (b.fork short).builder.Supplies operand := by
  have place₁ := (newBlock_live place).2.2.1
  have two := newBlock_supplies place₁ (newBlock_supplies place supplies)
  cases short with
  | true => exact two
  | false => exact newBlock_supplies (newBlock_live place₁).2.2.1 two

theorem Sound.fork (sound : b.Sound trusted) (short : Bool) :
    (b.fork short).builder.Sound trusted := by
  cases short with
  | true => exact sound.newBlock.newBlock
  | false => exact sound.newBlock.newBlock.newBlock

theorem Aside.block?_isSome (aside : b.Aside p) : (b.func.block? p.block).isSome := by
  obtain ⟨⟨block, found, -⟩, -⟩ := aside
  simp [found]

end Builder

theorem Func.Precedes.block?_isSome (precedes : f.Precedes g) {id : BlockId}
    (found : (f.block? id).isSome) : (g.block? id).isSome := by
  obtain ⟨block, found⟩ := isSome_iff_exists.mp found
  obtain ⟨block', found', -⟩ := precedes.code ⟨id, 0⟩ [] ⟨block, found, nil_prefix⟩
  exact isSome_iff_exists.mpr ⟨block', found'⟩

/-- Block code in which every reference leads somewhere, and whatever is read is a constant in range
or a value defined before in the same block, under its recorded type. -/
structure Func.Sound (g : Func) : Prop where
  entry : g.entry = 0
  numbered : ∀ (i : Nat) b, g.blocks[i]? = some b → b.id = i
  ends : ∀ b ∈ g.blocks, b.term ≠ .pending ∧ ∀ kind, b.term ≠ .unknown kind
  targets : g.TargetsExist
  defines : g.DefinesEach
  reads : ∀ b ∈ g.blocks, Reads (Operand.Fits g.values) b.term [] b.instrs
  instrs : ∀ b ∈ g.blocks, ∀ instr ∈ b.instrs, instr.Fits g.locals g.values

theorem Builder.closed_finalize {b : Builder} (member : block' ∈ b.finalize.func.blocks) :
    ∃ block ∈ b.func.blocks, block'.instrs = block.instrs ∧
      (block'.term = block.term ∧ block.term ≠ .pending ∨ block'.term = .unreachable) := by
  obtain ⟨block, earlier, rfl⟩ := mem_map.mp member
  refine ⟨block, earlier, ?_⟩
  split
  · exact ⟨rfl, .inr rfl⟩
  · next ended => exact ⟨rfl, .inl ⟨rfl, fun pending => ended (isPending_iff.mpr pending)⟩⟩

theorem Builder.Sound.finalize_block {b : Builder} (sound : b.Sound trusted) {block' : Block}
    (member : block' ∈ b.finalize.func.blocks) :
    Reads (Operand.Fits b.func.values) block'.term [] block'.instrs ∧
      ∀ instr ∈ block'.instrs, instr.FitsWhere trusted b.func.locals b.func.values := by
  obtain ⟨block, earlier, code, ended⟩ := closed_finalize member
  have reads := (sound.blocks block earlier).reads
  rw [code]
  refine ⟨?_, (sound.blocks block earlier).instrs⟩
  rcases ended with ⟨same, -⟩ | same
  · rw [same]
    exact reads
  · rw [same]
    rw [← append_nil block.instrs] at reads ⊢
    exact Reads.append.mpr ⟨(Reads.append.mp reads).1, by simp [Reads, Terminator.operands]⟩

theorem Builder.Sound.finalize {b : Builder} (sound : b.Sound True) (entry : b.func.entry = 0)
    (present : (b.func.block? 0).isSome) : b.finalize.func.Sound := by
  have known : ∀ id, (b.finalize.func.block? id).isSome = (b.func.block? id).isSome := by
    intro id
    simp only [Func.block?, Builder.finalize, at?_map, isSome_map]
  constructor
  · exact entry
  · exact numbered_finalize sound.numbered
  · intro block' member
    obtain ⟨block, earlier, -, ⟨same, ended⟩ | same⟩ := closed_finalize member
    · rw [same]
      exact ⟨ended, (sound.blocks block earlier).known⟩
    · simp [same]
  · refine ⟨?_, fun block' member target isTarget => ?_⟩
    · rw [known]
      exact entry ▸ present
    · rw [known]
      obtain ⟨block, earlier, -, ⟨same, -⟩ | same⟩ := closed_finalize member
      · rw [same] at isTarget
        exact at?_isSome_iff.mpr ((sound.blocks block earlier).targets target isTarget)
      · rw [same] at isTarget
        cases isTarget
  · exact definesEach_finalize sound.defines
  · exact fun block member => (sound.finalize_block member).1
  · intro block member instr isInstr
    exact ((sound.finalize_block member).2 instr isInstr).2 trivial

def BlockFault.isTypeDisagreement : BlockFault → Bool
  | .storeType _ _ _ | .operandsDisagree _ _ _ | .conditionType _ | .voidReturnsValue
  | .missingReturn _ | .returnType _ _ => true
  | _ => false

theorem Reads.each {P : List ValueId → Operand → Prop} {term : Terminator}
    {before : List ValueId} {instrs : List Instr} (reads : Reads P term before instrs)
    {operand : Operand} (isOperand : operand ∈ instrs.flatMap Instr.operands ++ term.operands) :
    ∃ seen, seen ⊆ defined instrs ++ before ∧ P seen operand := by
  induction instrs generalizing before with
  | nil => exact ⟨before, List.Subset.refl _, reads operand isOperand⟩
  | cons instr rest ih =>
    rw [flatMap_cons, append_assoc, mem_append] at isOperand
    rcases isOperand with here | later
    · exact ⟨before, subset_append_right _ _, reads.1 operand here⟩
    · obtain ⟨seen, subset, satisfied⟩ := ih reads.2 later
      refine ⟨seen, List.Subset.trans subset ?_, satisfied⟩
      intro id member
      cases defines : instr.defines with
      | none => simpa [defined, defines] using member
      | some own => simpa [defined, defines, or_left_comm] using member

namespace Func.Sound

variable {g : Func} {b : Block}

theorem operandFaults (sound : g.Sound) (member : b ∈ g.blocks)
    (isOperand : operand ∈ b.instrs.flatMap Instr.operands ++ b.term.operands) (use : Text) :
    g.operandFaults use operand = [] := by
  obtain ⟨seen, subset, fits⟩ := (sound.reads b member).each isOperand
  rw [append_nil] at subset
  apply operandFaults_eq_nil.mpr
  cases operand with
  | undef type => exact fits.elim
  | const type n => exact ⟨fits.imp And.left And.left, nofun⟩
  | value id type =>
    refine ⟨fits.2, fun other same => ?_⟩
    cases same
    exact mem_flatMap.mpr ⟨b, member, subset fits.1⟩

theorem resultFaults (typed : at? g.values dst = some type) : g.resultFaults dst type = [] := by
  simp [Func.resultFaults, typed]

theorem instrFaults (sound : g.Sound) (member : b ∈ g.blocks) (isInstr : instr ∈ b.instrs)
    (found : fault ∈ g.instrFaults instr) : fault.isTypeDisagreement := by
  have fits := sound.instrs b member instr isInstr
  have operands : ∀ operand ∈ instr.operands, ∀ use, g.operandFaults use operand = [] :=
    fun operand isOperand => sound.operandFaults member
      (mem_append_left _ (mem_flatMap.mpr ⟨instr, isInstr, isOperand⟩))
  cases instr with
  | load dst src =>
    obtain ⟨slot, present, typed⟩ := fits
    simp [Func.instrFaults, present, resultFaults typed] at found
  | store dst value =>
    obtain ⟨slot, present⟩ := isSome_iff_exists.mp fits
    simp only [Func.instrFaults, present, operands value (by simp [Instr.operands]),
      nil_append, mem_ite_nil_left, mem_singleton] at found
    rw [found.2]
    rfl
  | binary dst op left right | compare dst op left right =>
    simp only [Func.instrFaults, resultFaults fits.2, operands left (by simp [Instr.operands]),
      operands right (by simp [Instr.operands]), nil_append, append_nil,
      mem_ite_nil_left, mem_singleton] at found
    rw [found.2]
    rfl
  | unary dst op operand =>
    simp [Func.instrFaults, resultFaults fits.2, operands operand (by simp [Instr.operands])]
      at found
  | unknown dst kind => exact fits.elim

theorem termFaults (sound : g.Sound) (member : b ∈ g.blocks) (found : fault ∈ g.termFaults b.term) :
    fault.isTypeDisagreement := by
  have ends := sound.ends b member
  have targets := sound.targets.targets b member
  have operands : ∀ operand ∈ b.term.operands, ∀ use, g.operandFaults use operand = [] :=
    fun operand isOperand => sound.operandFaults member (mem_append_right _ isOperand)
  cases term : b.term with
  | pending => exact absurd term ends.1
  | unknown kind => exact absurd term (ends.2 kind)
  | unreachable =>
    rw [term] at found
    cases found
  | goto target =>
    rw [term] at found targets
    simp [Func.termFaults, targets target (by simp [Terminator.successors])] at found
  | branch cond yes no =>
    rw [term] at found targets operands
    simp only [Func.termFaults, operands cond (by simp [Terminator.operands]), nil_append,
      if_pos (targets yes (by simp [Terminator.successors])), append_nil,
      if_pos (targets no (by simp [Terminator.successors])), mem_ite_nil_left,
      mem_singleton] at found
    rw [found.2]
    rfl
  | ret value =>
    rw [term] at found operands
    cases value with
    | none =>
      simp only [Func.termFaults, mem_ite_nil_left, mem_singleton] at found
      rw [found.2]
      rfl
    | some value =>
      simp only [Func.termFaults, operands value (by simp [Terminator.operands]),
        nil_append] at found
      split at found
      · rw [mem_singleton.mp found]
        rfl
      · simp only [mem_ite_nil_left, mem_singleton] at found
        rw [found.2]
        rfl

theorem only_type_disagreements (sound : g.Sound) (found : fault ∈ g.faults) :
    ∃ position inner, fault = .inBlock position inner ∧ inner.isTypeDisagreement := by
  have entry := sound.targets.entry
  have nonempty : g.blocks ≠ [] := by
    intro empty
    simp [Func.block?, at?, empty] at entry
  have definitions : g.allDefinitionFaults [] 0 g.blocks = [] :=
    (allDefinitionFaults_eq_nil g [] 0 g.blocks).mpr
      ⟨sound.defines.once, fun id member => ⟨by simp, (sound.defines.all id).mp member⟩⟩
  simp only [Func.faults, List.isEmpty_iff, if_neg nonempty, isNone_iff_eq_none,
    if_neg (isSome_iff_ne_none.mp entry), definitions, List.nil_append, List.mem_flatMap,
    List.mem_map] at found
  obtain ⟨numbered, place, inner, member, rfl⟩ := found
  have here : g.blocks[numbered.2]? = some numbered.1 := List.mem_zipIdx_iff_getElem?.mp place
  refine ⟨numbered.2, inner, rfl, ?_⟩
  have block := List.mem_of_getElem? here
  simp only [Func.blockFaults, if_pos (sound.numbered _ _ here), nil_append, mem_append,
    mem_flatMap] at member
  rcases member with ⟨instr, isInstr, inInstr⟩ | inTerm
  · exact sound.instrFaults block isInstr inInstr
  · exact sound.termFaults block inTerm

end Func.Sound

end MiddleEnd.Ir
