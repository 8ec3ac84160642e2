import MiddleEnd.Proofs.Ir.DeadCode
import MiddleEnd.Proofs.Ir.Reachability
import Mathlib.Data.List.Forall2

/-!
Validity as typing, and that every pass over block code keeps functions well typed.
-/

namespace MiddleEnd.Ir

open List Option Terminator

variable {instrs : List Instr} {blocks' : List Block} {result : Ty}

def Operand.Typed (values : List Ty) : Operand → Prop
  | .undef _ => False
  | .const type _ => type = .i1 ∨ type = .i32
  | .value id type => at? values id = some type

inductive Instr.Typed (slots : List Slot) (values : List Ty) : Instr → Prop where
  | load {dst : ValueId} {src : LocalId} {slot : Slot} (found : at? slots src = some slot)
      (result : at? values dst = some slot.type) : Typed slots values (.load dst src)
  | store {dst : LocalId} {value : Operand} {slot : Slot} (found : at? slots dst = some slot)
      (typed : value.Typed values) (same : slot.type = value.type) :
      Typed slots values (.store dst value)
  | binary {dst : ValueId} {op : BinOp} {left right : Operand} (typedLeft : left.Typed values)
      (typedRight : right.Typed values) (same : left.type = right.type)
      (result : at? values dst = some left.type) : Typed slots values (.binary dst op left right)
  | compare {dst : ValueId} {pred : CmpPred} {left right : Operand}
      (typedLeft : left.Typed values) (typedRight : right.Typed values)
      (same : left.type = right.type) (result : at? values dst = some .i1) :
      Typed slots values (.compare dst pred left right)
  | unary {dst : ValueId} {op : UnOp} {operand : Operand} (typed : operand.Typed values)
      (result : at? values dst = some operand.type) : Typed slots values (.unary dst op operand)

inductive Terminator.Typed (values : List Ty) (result : Ty) : Terminator → Prop where
  | goto {target : BlockId} : Typed values result (.goto target)
  | branch {cond : Operand} {yes no : BlockId} (typed : cond.Typed values)
      (truth : cond.type = .i1) : Typed values result (.branch cond yes no)
  | finish (void : result = .void) : Typed values result (.ret none)
  | ret {value : Operand} (typed : value.Typed values) (same : value.type = result)
      (notVoid : result ≠ .void) : Typed values result (.ret (some value))
  | unreachable : Typed values result .unreachable

/-- Each instruction and terminator fits its operands, and every operand is known where it is
read. -/
structure Func.WellTyped (f : Func) : Prop where
  targets : f.TargetsExist
  numbered : ∀ (i : Nat) b, f.blocks[i]? = some b → b.id = i
  nodup : f.definitions.Nodup
  instrs : ∀ b ∈ f.blocks, ∀ instr ∈ b.instrs, instr.Typed f.locals f.values
  terms : ∀ b ∈ f.blocks, b.term.Typed f.values f.result
  reads : f.Defined

section Faults

variable {f : Func}

theorem operandFaults_eq_nil :
    f.operandFaults use operand = [] ↔
      operand.Typed f.values ∧ ∀ id, operand.value? = some id → id ∈ f.definitions := by
  cases operand with
  | undef type => simp [Func.operandFaults, Operand.Typed]
  | const type n =>
    have noValue : (Operand.const type n).value? = none := rfl
    simp [Func.operandFaults, Operand.Typed, noValue, or_iff_not_imp_left]
  | value id type =>
    have isValue : (Operand.value id type).value? = some id := rfl
    simp only [Func.operandFaults, Func.isDefined, Operand.Typed, isValue, Option.some.injEq,
      forall_eq']
    rcases eq_none_or_eq_some (at? f.values id) with found | ⟨defined, found⟩
    · simp [found]
    · by_cases member : id ∈ f.definitions <;> simp [found, member]

theorem operandFaults_of_typed (typed : operand.Typed f.values)
    (reads : ∀ id, operand.value? = some id → id ∈ f.definitions) (use : Text) :
    f.operandFaults use operand = [] :=
  operandFaults_eq_nil.mpr ⟨typed, reads⟩

theorem resultFaults_eq_nil (known : (at? f.values dst).isSome) :
    f.resultFaults dst type = [] ↔ at? f.values dst = some type := by
  unfold Func.resultFaults
  cases found : at? f.values dst with
  | none => simp [found] at known
  | some defined => simp

variable {instr : Instr}

theorem instrFaults_typed (faultless : f.instrFaults instr = [])
    (known : ∀ id, instr.defines = some id → (at? f.values id).isSome) :
    instr.Typed f.locals f.values := by
  cases instr with
  | load dst src =>
    cases found : at? f.locals src with
    | none => simp [Func.instrFaults, found] at faultless
    | some slot =>
      simp only [Func.instrFaults, found, resultFaults_eq_nil (known dst rfl)] at faultless
      exact .load found faultless
  | store dst value =>
    cases found : at? f.locals dst with
    | none => simp [Func.instrFaults, found] at faultless
    | some slot =>
      simp only [Func.instrFaults, found, append_eq_nil_iff, operandFaults_eq_nil,
        ite_eq_left_iff] at faultless
      exact .store found faultless.1.1 (by simpa using faultless.2)
  | binary dst op left right =>
    simp only [Func.instrFaults, append_eq_nil_iff, operandFaults_eq_nil,
      resultFaults_eq_nil (known dst rfl), ite_eq_left_iff] at faultless
    obtain ⟨⟨⟨onLeft, onRight⟩, same⟩, result⟩ := faultless
    exact .binary onLeft.1 onRight.1 (by simpa using same) result
  | compare dst pred left right =>
    simp only [Func.instrFaults, append_eq_nil_iff, operandFaults_eq_nil,
      resultFaults_eq_nil (known dst rfl), ite_eq_left_iff] at faultless
    obtain ⟨⟨⟨onLeft, onRight⟩, same⟩, result⟩ := faultless
    exact .compare onLeft.1 onRight.1 (by simpa using same) result
  | unary dst op operand =>
    simp only [Func.instrFaults, append_eq_nil_iff, operandFaults_eq_nil,
      resultFaults_eq_nil (known dst rfl)] at faultless
    exact .unary faultless.1.1 faultless.2
  | unknown dst kind => cases faultless

theorem Instr.Typed.defines_typed (typed : instr.Typed f.locals f.values) {id : ValueId}
    (defines : instr.defines = some id) : (at? f.values id).isSome := by
  cases typed with
  | load found result | binary _ _ _ result | compare _ _ _ result | unary _ result =>
    cases defines
    simp [result]
  | store => cases defines

theorem Instr.Typed.faultless (typed : instr.Typed f.locals f.values)
    (reads : ∀ operand ∈ instr.operands, ∀ id, operand.value? = some id → id ∈ f.definitions) :
    f.instrFaults instr = [] := by
  have known : ∀ id, instr.defines = some id → (at? f.values id).isSome := fun id =>
    typed.defines_typed
  cases typed with
  | load found result =>
    simp only [Func.instrFaults, found, resultFaults_eq_nil (known _ rfl)]
    exact result
  | store found typed same =>
    have faultless := operandFaults_of_typed typed (reads _ (by simp [Instr.operands]))
    simp [Func.instrFaults, found, faultless, same]
  | binary typedLeft typedRight same result | compare typedLeft typedRight same result =>
    have onLeft := operandFaults_of_typed typedLeft (reads _ (by simp [Instr.operands]))
    have onRight := operandFaults_of_typed typedRight (reads _ (by simp [Instr.operands]))
    have onResult := (resultFaults_eq_nil (known _ rfl)).mpr result
    simp only [Func.instrFaults, onLeft, onRight, if_pos same, onResult, append_nil]
  | unary typed result =>
    have faultless := operandFaults_of_typed typed (reads _ (by simp [Instr.operands]))
    have onResult := (resultFaults_eq_nil (known _ rfl)).mpr result
    simp only [Func.instrFaults, faultless, onResult, append_nil]

theorem termFaults_typed (faultless : f.termFaults term = []) : term.Typed f.values f.result := by
  cases term with
  | pending | unknown kind => cases faultless
  | goto target => exact .goto
  | unreachable => exact .unreachable
  | branch cond yes no =>
    simp only [Func.termFaults, append_eq_nil_iff, operandFaults_eq_nil,
      ite_eq_left_iff] at faultless
    exact .branch faultless.1.1.1.1 (by simpa using faultless.1.1.2)
  | ret value =>
    cases value with
    | none => exact .finish (by simpa [Func.termFaults] using faultless)
    | some value =>
      simp only [Func.termFaults] at faultless
      split at faultless
      · cases faultless
      · next notVoid =>
        simp only [append_eq_nil_iff, operandFaults_eq_nil, ite_eq_left_iff] at faultless
        exact .ret faultless.1.1 (by simpa using faultless.2) notVoid

theorem Terminator.Typed.faultless (typed : term.Typed f.values f.result)
    (reads : ∀ operand ∈ term.operands, ∀ id, operand.value? = some id → id ∈ f.definitions)
    (targets : ∀ target ∈ term.successors, (f.block? target).isSome) : f.termFaults term = [] := by
  cases typed with
  | goto => simpa [Func.termFaults, successors, isSome_iff_ne_none] using targets
  | branch typed truth =>
    have faultless := operandFaults_of_typed typed (reads _ (by simp [operands]))
    simp only [successors, mem_cons, not_mem_nil, or_false, forall_eq_or_imp, forall_eq] at targets
    simp [Func.termFaults, faultless, truth, targets]
  | finish void => simp [Func.termFaults, void]
  | ret typed same notVoid =>
    have faultless := operandFaults_of_typed typed (reads _ (by simp [operands]))
    simp [Func.termFaults, faultless, same, notVoid]
  | unreachable => rfl

end Faults

variable {term : Terminator} {blocks : List Block}

theorem Reads.definedIn (reads : Reads Operand.DefinedIn term [] instrs) :
    (∀ instr ∈ instrs, ∀ operand ∈ instr.operands, operand.DefinedIn (defined instrs)) ∧
      ∀ operand ∈ term.operands, operand.DefinedIn (defined instrs) := by
  constructor
  · intro instr member operand isOperand
    obtain ⟨before, behind, rfl⟩ := append_of_mem member
    refine ((Reads.append.mp reads).2.1 operand isOperand).mono fun id earlier => ?_
    have earlier : id ∈ defined before := by simpa using earlier
    rw [defined, filterMap_append]
    exact mem_append_left _ earlier
  · intro operand isOperand
    rw [← append_nil instrs] at reads
    exact ((Reads.append.mp reads).2 operand isOperand).mono fun id earlier => by
      simpa using earlier

namespace Func

variable {f : Func}

theorem Valid.wellTyped (valid : f.Valid) (reads : f.Defined) : f.WellTyped where
  targets := valid.targetsExist
  numbered i b position := (blockFaults_eq_nil (valid.blocks i b position)).1
  nodup := valid.nodup
  instrs b block instr member := instrFaults_typed (valid.instr block member) fun id defines =>
    valid.known id (mem_flatMap.mpr
      ⟨b, block, mem_filterMap.mpr ⟨instr, member, defines⟩⟩)
  terms _ block := termFaults_typed (valid.term block)
  reads := reads

theorem WellTyped.valid (typed : f.WellTyped) : f.Valid where
  entry := typed.targets.entry
  nodup := typed.nodup
  known id member := by
    obtain ⟨b, block, member⟩ := mem_flatMap.mp member
    obtain ⟨instr, member, defines⟩ := mem_filterMap.mp member
    exact (typed.instrs b block instr member).defines_typed defines
  blocks i b position := by
    have block := mem_of_getElem? position
    have inFunction : ∀ {operand : Operand}, operand.DefinedIn (defined b.instrs) →
        ∀ id, operand.value? = some id → id ∈ f.definitions := by
      intro operand given id isValue
      cases operand with
      | undef type => cases isValue
      | const type n => cases isValue
      | value other type =>
        cases isValue
        exact mem_flatMap.mpr ⟨b, block, given⟩
    obtain ⟨inInstrs, inTerm⟩ := (typed.reads b block).definedIn
    simp only [blockFaults, append_eq_nil_iff, flatMap_eq_nil_iff]
    refine ⟨⟨if_pos (typed.numbered i b position), fun instr member => ?_⟩, ?_⟩
    · exact (typed.instrs b block instr member).faultless fun operand isOperand =>
        inFunction (inInstrs instr member operand isOperand)
    · exact (typed.terms b block).faultless
        (fun operand isOperand => inFunction (inTerm operand isOperand))
        (typed.targets.targets b block)

end Func

/-- Block `b'` is what a pass over its instructions leaves of `b`. -/
structure Block.Reduces (b b' : Block) : Prop where
  id : b'.id = b.id
  successors : b'.term.successors = b.term.successors
  defined : (defined b'.instrs).Sublist (defined b.instrs)

theorem Block.Reduces.definitions_sublist (reduces : List.Forall₂ Block.Reduces blocks blocks') :
    (blocks'.flatMap fun b => Ir.defined b.instrs).Sublist
      (blocks.flatMap fun b => Ir.defined b.instrs) := by
  induction reduces with
  | nil => exact List.Sublist.refl _
  | cons head _ ih =>
    rw [flatMap_cons, flatMap_cons]
    exact head.defined.append ih

theorem Block.Reduces.origin (reduces : List.Forall₂ Block.Reduces blocks blocks') {i : Nat}
    {b' : Block} (position : blocks'[i]? = some b') : ∃ b, blocks[i]? = some b ∧ b.Reduces b' := by
  induction reduces generalizing i with
  | nil => cases position
  | cons head _ ih =>
    cases i with
    | zero =>
      cases position
      exact ⟨_, rfl, head⟩
    | succ i => exact ih position

theorem Func.WellTyped.reduce {f : Func} (typed : f.WellTyped)
    (reduces : List.Forall₂ Block.Reduces f.blocks blocks)
    (instrs : ∀ b ∈ blocks, ∀ instr ∈ b.instrs, instr.Typed f.locals f.values)
    (terms : ∀ b ∈ blocks, b.term.Typed f.values f.result)
    (reads : Func.Defined { f with blocks := blocks }) :
    Func.WellTyped { f with blocks := blocks } := by
  have exist : ∀ id, (f.block? id).isSome → (at? blocks id).isSome := by
    intro id
    rw [block?, at?_isSome_iff, at?_isSome_iff, reduces.length_eq]
    exact fun known => known
  refine ⟨⟨exist _ typed.targets.entry, fun b' member target isTarget => ?_⟩, ?_,
    typed.nodup.sublist (Block.Reduces.definitions_sublist reduces), instrs, terms, reads⟩
  · obtain ⟨i, position⟩ := List.getElem?_of_mem member
    obtain ⟨b, position₀, head⟩ := Block.Reduces.origin reduces position
    rw [head.successors] at isTarget
    exact exist _ (typed.targets.targets b (mem_of_getElem? position₀) target isTarget)
  · intro i b' position
    obtain ⟨b, position₀, head⟩ := Block.Reduces.origin reduces position
    rw [head.id, typed.numbered i b position₀]

theorem Func.WellTyped.filterInstrs {f : Func} (typed : f.WellTyped) {keep : Instr → Bool}
    (reads : (f.filterInstrs keep).Defined) : (f.filterInstrs keep).WellTyped := by
  refine typed.reduce (forall₂_map_right_iff.mpr (forall₂_same.mpr fun b _ => ?_)) ?_ ?_
    reads
  · exact ⟨rfl, rfl, filter_sublist.filterMap _⟩
  · intro b' block' instr member
    obtain ⟨b, block, rfl⟩ := mem_map.mp block'
    exact typed.instrs b block instr (mem_filter.mp member).1
  · intro b' block'
    obtain ⟨b, block, rfl⟩ := mem_map.mp block'
    exact typed.terms b block

section Forwarding

variable {slots : List Slot} {values : List Ty}

/-- What is known has the type of the value or slot that it is known of. -/
structure Known.Typed (slots : List Slot) (values : List Ty) (known : Known) : Prop where
  forwarded : ∀ id operand, known.forwarded.lookup id = some operand →
    operand.Typed values ∧ at? values id = some operand.type
  slots : ∀ id operand, known.slots.lookup id = some operand →
    operand.Typed values ∧ ∃ slot, at? slots id = some slot ∧ slot.type = operand.type

variable {known : Known} {operand : Operand}

theorem Known.Typed.replace (knows : known.Typed slots values) (typed : operand.Typed values) :
    (operand.replace known.forwarded).Typed values ∧
      (operand.replace known.forwarded).type = operand.type := by
  cases operand with
  | undef type => cases typed
  | const type n => exact ⟨typed, rfl⟩
  | value id type =>
    rw [Operand.replace_value]
    cases found : known.forwarded.lookup id with
    | none => exact ⟨typed, rfl⟩
    | some replacement =>
      obtain ⟨typed', same⟩ := knows.forwarded id replacement found
      exact ⟨typed', Option.some.inj (same.symm.trans typed)⟩

theorem Known.Typed.learn (knows : known.Typed slots values) {id : LocalId} {slot : Slot}
    (typed : operand.Typed values) (found : at? slots id = some slot)
    (same : slot.type = operand.type) :
    Known.Typed slots values { known with slots := (id, operand) :: known.slots } where
  forwarded := knows.forwarded
  slots other operand' found' := by
    rw [lookup_cons] at found'
    split at found'
    · next same' =>
      cases found'
      rw [eq_of_beq same']
      exact ⟨typed, slot, found, same⟩
    · exact knows.slots other operand' found'

theorem Known.Typed.forward (knows : known.Typed slots values) {id : ValueId}
    (typed : operand.Typed values) (same : at? values id = some operand.type) :
    Known.Typed slots values { known with forwarded := (id, operand) :: known.forwarded } where
  forwarded other operand' found := by
    rw [lookup_cons] at found
    split at found
    · next same' =>
      cases found
      rw [eq_of_beq same']
      exact ⟨typed, same⟩
    · exact knows.forwarded other operand' found
  slots := knows.slots

theorem Instr.Typed.mapOperands {instr : Instr} (typed : instr.Typed slots values)
    {change : Operand → Operand}
    (keeps : ∀ operand, operand.Typed values →
      (change operand).Typed values ∧ (change operand).type = operand.type) :
    (instr.mapOperands change).Typed slots values := by
  cases typed with
  | load found result => exact .load found result
  | store found typed same =>
    obtain ⟨typed', same'⟩ := keeps _ typed
    exact .store found typed' (same.trans same'.symm)
  | binary typedLeft typedRight same result =>
    obtain ⟨typedLeft', sameLeft⟩ := keeps _ typedLeft
    obtain ⟨typedRight', sameRight⟩ := keeps _ typedRight
    exact .binary typedLeft' typedRight' (by rw [sameLeft, sameRight, same])
      (by rw [sameLeft, result])
  | compare typedLeft typedRight same result =>
    obtain ⟨typedLeft', sameLeft⟩ := keeps _ typedLeft
    obtain ⟨typedRight', sameRight⟩ := keeps _ typedRight
    exact .compare typedLeft' typedRight' (by rw [sameLeft, sameRight, same]) result
  | unary typed result =>
    obtain ⟨typed', same⟩ := keeps _ typed
    exact .unary typed' (by rw [same, result])

theorem Terminator.Typed.mapOperands (typed : term.Typed values result) {change : Operand → Operand}
    (keeps : ∀ operand, operand.Typed values →
      (change operand).Typed values ∧ (change operand).type = operand.type) :
    (term.mapOperands change).Typed values result := by
  cases typed with
  | goto => exact .goto
  | branch typed truth =>
    obtain ⟨typed', same⟩ := keeps _ typed
    exact .branch typed' (same.trans truth)
  | finish void => exact .finish void
  | ret typed same notVoid =>
    obtain ⟨typed', same'⟩ := keeps _ typed
    exact .ret typed' (same'.trans same) notVoid
  | unreachable => exact .unreachable

theorem Terminator.successors_mapOperands (term : Terminator) (change : Operand → Operand) :
    (term.mapOperands change).successors = term.successors := by
  cases term <;> rfl

theorem Known.Typed.step {known known' : Known} {instr : Instr} {out : List Instr}
    (knows : known.Typed slots values)
    (stepped : known.step values instr = some (known', out)) (typed : instr.Typed slots values) :
    known'.Typed slots values ∧ (∀ instr' ∈ out, instr'.Typed slots values) ∧
      (defined out).Sublist instr.defines.toList := by
  cases Known.stepped_of_step stepped with
  | store =>
    cases typed with
    | store found typed same =>
      obtain ⟨typed', same'⟩ := knows.replace typed
      refine ⟨knows.learn typed' found (same.trans same'.symm), ?_, List.Sublist.refl _⟩
      simpa using Instr.Typed.store found typed' (same.trans same'.symm)
  | forwarded found =>
    cases typed with
    | load found' result =>
      obtain ⟨typed, slot, found'', same⟩ := knows.slots _ _ found
      cases found'.symm.trans found''
      exact ⟨knows.forward typed (by rw [result, same]), by simp, nil_sublist _⟩
  | load unknown valueType =>
    cases typed with
    | load found result =>
      have same := Option.some.inj (result.symm.trans valueType)
      refine ⟨knows.learn valueType found same, ?_, List.Sublist.refl _⟩
      simpa using Instr.Typed.load found result
  | computed computes =>
    refine ⟨knows, ?_, ?_⟩
    · simpa using typed.mapOperands fun operand => knows.replace
    · simp [defined, (computes.mapOperands _).defines, computes.defines]
  | unknown => cases typed

theorem Known.Typed.steps (knows : known.Typed slots values)
    (stepped : known.steps values instrs = some (known', out))
    (typed : ∀ instr ∈ instrs, instr.Typed slots values) :
    known'.Typed slots values ∧ (∀ instr' ∈ out, instr'.Typed slots values) ∧
      (defined out).Sublist (defined instrs) := by
  induction instrs generalizing known out with
  | nil =>
    cases stepped
    exact ⟨knows, by simp, List.Sublist.refl _⟩
  | cons instr rest ih =>
    obtain ⟨middle, first, second, headStepped, restStepped, rfl⟩ := Known.steps_cons stepped
    obtain ⟨knows', typedFirst, fewer⟩ := knows.step headStepped (typed instr (by simp))
    obtain ⟨knows'', typedSecond, fewer'⟩ := ih knows' restStepped fun other member =>
      typed other (mem_cons_of_mem _ member)
    refine ⟨knows'', fun instr' member => ?_, ?_⟩
    · rcases mem_append.mp member with inFirst | inSecond
      · exact typedFirst instr' inFirst
      · exact typedSecond instr' inSecond
    · rw [Known.defined_cons, defined, filterMap_append]
      exact fewer.append fewer'

theorem forwardBlocks_typed (knows : Known.Typed slots values ⟨forwarded, []⟩)
    (rewritten : Func.forwardBlocks values forwarded blocks = some blocks')
    (instrs : ∀ b ∈ blocks, ∀ instr ∈ b.instrs, instr.Typed slots values)
    (terms : ∀ b ∈ blocks, b.term.Typed values result) :
    List.Forall₂ Block.Reduces blocks blocks' ∧ ∀ b' ∈ blocks',
      (∀ instr ∈ b'.instrs, instr.Typed slots values) ∧ b'.term.Typed values result := by
  induction blocks generalizing forwarded blocks' with
  | nil =>
    cases rewritten
    exact ⟨.nil, by simp⟩
  | cons b rest ih =>
    simp only [Func.forwardBlocks, bind_eq_bind, bind_eq_some_iff] at rewritten
    obtain ⟨⟨known, out⟩, stepped, ⟨rest', rewrittenRest, equation⟩⟩ := rewritten
    cases equation
    obtain ⟨knows', typedOut, fewer⟩ := knows.steps stepped (instrs b (by simp))
    have typedTerm := (terms b (by simp)).mapOperands fun operand => knows'.replace
    obtain ⟨reduces, typedRest⟩ := ih ⟨knows'.forwarded, by simp⟩ rewrittenRest
      (fun other member => instrs other (mem_cons_of_mem _ member))
      (fun other member => terms other (mem_cons_of_mem _ member))
    refine ⟨.cons ⟨rfl, successors_mapOperands _ _, fewer⟩ reduces,
      fun b' member => ?_⟩
    rcases mem_cons.mp member with rfl | member
    · exact ⟨typedOut, typedTerm⟩
    · exact typedRest b' member

end Forwarding

namespace Func

variable {f : Func}

theorem WellTyped.forwardStores (typed : f.WellTyped) :
    ∃ g, f.forwardStores? = some g ∧ g.WellTyped := by
  obtain ⟨blocks, rewritten, forwarded⟩ := typed.valid.forwardBlocks
  obtain ⟨reduces, each⟩ :=
    forwardBlocks_typed ⟨by simp, by simp⟩ rewritten typed.instrs typed.terms
  have typed₁ := typed.reduce reduces (fun b block => (each b block).1)
    (fun b block => (each b block).2) (forwarded.defined typed.valid typed.reads)
  obtain ⟨keepLoads, loads, dropsLoads⟩ := dropDeadLoads_drops { f with blocks := blocks }
  have typed₂ := typed₁.filterInstrs (dropsLoads.defined typed₁.reads)
  rw [← loads] at typed₂
  obtain ⟨keepStores, stores, dropsStores⟩ :=
    dropDeadStores_drops (dropDeadLoads { f with blocks := blocks })
  have typed₃ := typed₂.filterInstrs (dropsStores.defined typed₂.reads)
  rw [← stores] at typed₃
  exact ⟨_, by rw [forwardStores?, rewritten, map_some], typed₃⟩

end Func

theorem Terminator.operands_mapTargets (term : Terminator) (change : BlockId → BlockId) :
    (term.mapTargets change).operands = term.operands := by
  cases term <;> rfl

theorem Terminator.Typed.mapTargets {values : List Ty} (typed : term.Typed values result)
    (change : BlockId → BlockId) : (term.mapTargets change).Typed values result := by
  cases typed with
  | goto => exact .goto
  | branch typed truth => exact .branch typed truth
  | finish void => exact .finish void
  | ret typed same notVoid => exact .ret typed same notVoid
  | unreachable => exact .unreachable

theorem Reads.mapTargets {P : List ValueId → Operand → Prop} (reads : Reads P term before instrs)
    (change : BlockId → BlockId) : Reads P (term.mapTargets change) before instrs := by
  induction instrs generalizing before with
  | nil =>
    intro operand member
    rw [operands_mapTargets] at member
    exact reads operand member
  | cons instr rest ih => exact ⟨reads.1, ih reads.2⟩

namespace Func

variable {f : Func}

theorem WellTyped.mapTargets (typed : f.WellTyped) {change : BlockId → BlockId}
    (targets : (f.mapTargets change).TargetsExist) : (f.mapTargets change).WellTyped where
  targets := targets
  numbered i b' position := by
    simp only [Func.mapTargets, List.getElem?_map, map_eq_some_iff] at position
    obtain ⟨b, position, rfl⟩ := position
    exact typed.numbered i b position
  nodup := by
    have same : (f.mapTargets change).definitions = f.definitions := by
      simp only [definitions, Func.mapTargets, flatMap_map]
    rw [same]
    exact typed.nodup
  instrs b' block' := by
    obtain ⟨b, block, rfl⟩ := mem_map.mp block'
    exact typed.instrs b block
  terms b' block' := by
    obtain ⟨b, block, rfl⟩ := mem_map.mp block'
    exact (typed.terms b block).mapTargets change
  reads b' block' := by
    obtain ⟨b, block, rfl⟩ := mem_map.mp block'
    exact (typed.reads b block).mapTargets change

theorem keepBlocks_origin {kept : List BlockId} {position : Nat} {b' : Block}
    (found : (f.keepBlocks kept).blocks[position]? = some b') :
    ∃ (i : Nat) (b : Block), (i : Int) ∈ kept ∧ f.blocks[i]? = some b ∧
      b' = { b with
        id := position
        term := b.term.mapTargets (renumber (f.keptPositions kept)) } := by
  rw [keepBlocks_getElem?] at found
  obtain ⟨i, here, found⟩ := bind_eq_some_iff.mp found
  obtain ⟨b, position, rfl⟩ := map_eq_some_iff.mp found
  exact ⟨i, b, (mem_keptPositions.mp (mem_of_getElem? here)).2, position, rfl⟩

theorem keepBlocks_instrs (kept : List BlockId) :
    ((f.keepBlocks kept).blocks.map Block.instrs).Sublist (f.blocks.map Block.instrs) := by
  let pick (i : Nat) : Option (List Instr) := f.blocks[i]?.map Block.instrs
  have chosen : (f.keepBlocks kept).blocks.map Block.instrs =
      (f.keptPositions kept).filterMap pick := by
    have unfolded : (f.keepBlocks kept).blocks.map Block.instrs =
        (f.keptPositions kept).zipIdx.filterMap (pick ∘ Prod.fst) := by
      refine map_filterMap.trans (filterMap_congr fun found _ => ?_)
      exact map_map ..
    rw [unfolded, ← filterMap_map, zipIdx_map_fst]
  have every : (List.range f.blocks.length).filterMap pick = f.blocks.map Block.instrs := by
    have total : (List.range f.blocks.length).filterMap pick =
        (List.range f.blocks.length).map fun i => (pick i).getD [] := by
      refine filterMap_eq_map_iff_forall_eq_some.mpr fun i member => ?_
      simp [pick, mem_range.mp member]
    rw [total]
    refine ext_getElem (by simp) fun i bound bound' => ?_
    have inside : i < f.blocks.length := by simpa using bound'
    simp [pick, List.getElem?_eq_getElem inside]
  rw [chosen, ← every]
  exact filter_sublist.filterMap _

theorem WellTyped.keepBlocks (typed : f.WellTyped) {kept : List BlockId} (closed : f.Closed kept)
    (entry : f.entry ∈ kept) : (f.keepBlocks kept).WellTyped := by
  have exist : ∀ id ∈ kept,
      ((f.keepBlocks kept).block? (renumber (f.keptPositions kept) id)).isSome := by
    intro id member
    obtain ⟨b, found⟩ := isSome_iff_exists.mp (closed.exist id member)
    obtain ⟨position, renumbered, found'⟩ := block?_keepBlocks member found
    rw [renumbered, found']
    rfl
  have origin : ∀ b' ∈ (f.keepBlocks kept).blocks, ∃ (position i : Nat) (b : Block),
      (i : Int) ∈ kept ∧ f.blocks[i]? = some b ∧ b' = { b with
        id := position
        term := b.term.mapTargets (renumber (f.keptPositions kept)) } := by
    intro b' block'
    obtain ⟨position, found⟩ := List.getElem?_of_mem block'
    exact ⟨position, keepBlocks_origin found⟩
  refine ⟨⟨exist _ entry, ?_⟩, ?_, ?_, ?_, ?_, ?_⟩
  · intro b' block' target isTarget
    obtain ⟨_, i, b, member, position, rfl⟩ := origin b' block'
    rw [successors_mapTargets] at isTarget
    obtain ⟨earlier, isEarlier, rfl⟩ := mem_map.mp isTarget
    refine exist _ (closed.successors i member b ?_ earlier isEarlier)
    rw [block?, at?_natCast, position]
  · intro i b' position
    obtain ⟨_, b, _, _, rfl⟩ := keepBlocks_origin position
    rfl
  · have fewer := keepBlocks_instrs (f := f) kept
    have nodup := typed.nodup
    unfold definitions at nodup ⊢
    rw [← flatMap_map Block.instrs (List.filterMap Instr.defines)] at nodup ⊢
    obtain ⟨each, apart⟩ := pairwise_flatMap.mp nodup
    exact pairwise_flatMap.mpr
      ⟨fun instrs member => each instrs (fewer.subset member), apart.sublist fewer⟩
  · intro b' block'
    obtain ⟨_, i, b, _, position, rfl⟩ := origin b' block'
    exact typed.instrs b (mem_of_getElem? position)
  · intro b' block'
    obtain ⟨_, i, b, _, position, rfl⟩ := origin b' block'
    exact (typed.terms b (mem_of_getElem? position)).mapTargets _
  · intro b' block'
    obtain ⟨_, i, b, _, position, rfl⟩ := origin b' block'
    exact (typed.reads b (mem_of_getElem? position)).mapTargets _

theorem WellTyped.simplify (typed : f.WellTyped) : f.simplify.WellTyped := by
  have targets := typed.targets.mapTargets typed.valid.redirects_skip
  obtain ⟨closed, entry⟩ := targets.reachable_closed
  exact (typed.mapTargets targets).keepBlocks closed entry

end Func

end MiddleEnd.Ir
