import MiddleEnd.Ir.Validation

/-!
What it means that validation reports nothing.
-/

namespace MiddleEnd.Ir

open List

variable {f : Func} {b : Block}

theorem at?_isSome_iff {α : Type} {xs : List α} {position : Int} :
    (at? xs position).isSome ↔ 0 ≤ position ∧ position < xs.length := by
  unfold at?
  split
  · simp
    omega
  · simp
    omega

@[simp] theorem at?_natCast {α : Type} (xs : List α) (position : Nat) :
    at? xs (position : Int) = xs[position]? := by
  unfold at?
  rw [if_neg (by omega), Int.toNat_natCast]

theorem at?_eq_some {α : Type} {xs : List α} {position : Int} {x : α}
    (found : at? xs position = some x) : ∃ i : Nat, position = i ∧ xs[i]? = some x := by
  unfold at? at found
  split at found
  · cases found
  · exact ⟨position.toNat, by omega, found⟩

theorem at?_map {α β : Type} (xs : List α) (f : α → β) (position : Int) :
    at? (xs.map f) position = (at? xs position).map f := by
  unfold at?
  split
  · rfl
  · rw [List.getElem?_map]

def defined (instrs : List Instr) : List ValueId :=
  instrs.filterMap Instr.defines

namespace Func

structure Valid (f : Func) : Prop where
  entry : (f.block? f.entry).isSome
  nodup : f.definitions.Nodup
  known : ∀ id ∈ f.definitions, (at? f.values id).isSome
  blocks : ∀ i b, f.blocks[i]? = some b → f.blockFaults i b = []

/-- Behind some values, instructions have no definition faults where each defines a new value that
the function has. -/
theorem definitionFaults_eq_nil (f : Func) (seen : List ValueId) (instrs : List Instr) :
    (f.definitionFaults seen instrs).1 = [] ↔
      (defined instrs).Nodup ∧
        ∀ id ∈ defined instrs, id ∉ seen ∧ (at? f.values id).isSome := by
  induction instrs generalizing seen with
  | nil => simp [definitionFaults, defined]
  | cons instr rest ih =>
    cases defines : instr.defines with
    | none =>
      have unchanged : defined (instr :: rest) = defined rest := by simp [defined, defines]
      simp only [definitionFaults, defines, unchanged]
      exact ih seen
    | some id =>
      have extended : defined (instr :: rest) = id :: defined rest := by
        simp [defined, defines]
      cases type : at? f.values id with
      | none =>
        simp [definitionFaults, defines, extended, type]
      | some _ =>
        simp only [definitionFaults, defines, extended, type]
        by_cases repeated : id ∈ seen
        · simp [repeated]
        · rw [if_neg repeated, ih]
          simp only [nodup_cons, mem_cons, not_or, forall_eq_or_imp, type]
          constructor
          · rintro ⟨nodup, each⟩
            exact ⟨⟨fun member => (each id member).1.1 rfl, nodup⟩, ⟨repeated, rfl⟩,
              fun other member => ⟨(each other member).1.2, (each other member).2⟩⟩
          · rintro ⟨⟨fresh, nodup⟩, -, each⟩
            refine ⟨nodup, fun other member => ⟨⟨?_, (each other member).1⟩,
              (each other member).2⟩⟩
            rintro rfl
            exact fresh member

theorem mem_definitionFaults_seen (f : Func) (seen : List ValueId) (instrs : List Instr)
    (known : ∀ id ∈ defined instrs, (at? f.values id).isSome) (id : ValueId) :
    id ∈ (f.definitionFaults seen instrs).2 ↔ id ∈ defined instrs ∨ id ∈ seen := by
  induction instrs generalizing seen with
  | nil => simp [definitionFaults, defined]
  | cons instr rest ih =>
    cases defines : instr.defines with
    | none =>
      have unchanged : defined (instr :: rest) = defined rest := by simp [defined, defines]
      rw [unchanged] at known ⊢
      simp only [definitionFaults, defines]
      exact ih seen known
    | some head =>
      have extended : defined (instr :: rest) = head :: defined rest := by
        simp [defined, defines]
      rw [extended] at known ⊢
      obtain ⟨type, found⟩ := Option.isSome_iff_exists.mp (known head (by simp))
      simp only [definitionFaults, defines, found]
      rw [ih _ fun other member => known other (by simp [member])]
      simp only [mem_cons]
      grind

theorem allDefinitionFaults_eq_nil (f : Func) (seen : List ValueId) (position : Nat)
    (blocks : List Block) :
    f.allDefinitionFaults seen position blocks = [] ↔
      (blocks.flatMap fun b => defined b.instrs).Nodup ∧
        ∀ id ∈ blocks.flatMap fun b => defined b.instrs,
          id ∉ seen ∧ (at? f.values id).isSome := by
  induction blocks generalizing seen position with
  | nil => simp [allDefinitionFaults]
  | cons b rest ih =>
    simp only [allDefinitionFaults, append_eq_nil_iff, map_eq_nil_iff, ih,
      definitionFaults_eq_nil, flatMap_cons, nodup_append, mem_append]
    constructor
    · rintro ⟨⟨headNodup, headEach⟩, restNodup, restEach⟩
      have inSeen := mem_definitionFaults_seen f seen b.instrs fun id member =>
        (headEach id member).2
      refine ⟨⟨headNodup, restNodup, ?_⟩, ?_⟩
      · rintro id inHead other inRest rfl
        exact (restEach id inRest).1 ((inSeen id).mpr (.inl inHead))
      · rintro id (inHead | inRest)
        · exact headEach id inHead
        · exact ⟨fun member => (restEach id inRest).1 ((inSeen id).mpr (.inr member)),
            (restEach id inRest).2⟩
    · rintro ⟨⟨headNodup, restNodup, disjoint⟩, each⟩
      have inSeen := mem_definitionFaults_seen f seen b.instrs fun id member =>
        (each id (.inl member)).2
      refine ⟨⟨headNodup, fun id member => each id (.inl member)⟩, restNodup, ?_⟩
      intro id inRest
      refine ⟨fun member => ?_, (each id (.inr inRest)).2⟩
      rcases (inSeen id).mp member with inHead | earlier
      · exact disjoint id inHead id inRest rfl
      · exact (each id (.inr inRest)).1 earlier

theorem faults_eq_nil_iff (f : Func) : f.faults = [] ↔ f.Valid := by
  have entryNonempty : (f.block? f.entry).isSome → f.blocks ≠ [] := by
    intro entry empty
    simp [block?, at?, empty] at entry
  unfold faults
  split
  · next empty =>
    constructor
    · intro equation
      cases equation
    · intro valid
      exact absurd (isEmpty_iff.mp empty) (entryNonempty valid.entry)
  · split
    · next missing =>
      constructor
      · intro equation
        cases equation
      · intro valid
        have entry := valid.entry
        rw [Option.isNone_iff_eq_none] at missing
        simp [missing] at entry
    · next found =>
      have entry : (f.block? f.entry).isSome := by
        cases equation : f.block? f.entry with
        | none => simp [equation] at found
        | some b => rfl
      simp only [append_eq_nil_iff, allDefinitionFaults_eq_nil, flatMap_eq_nil_iff, map_eq_nil_iff]
      constructor
      · rintro ⟨⟨nodup, each⟩, blocks⟩
        refine ⟨entry, nodup, fun id member => (each id member).2, ?_⟩
        intro i b position
        exact blocks (b, i) (mem_zipIdx_iff_getElem?.mpr position)
      · intro valid
        refine ⟨⟨valid.nodup, fun id member => ⟨by simp, valid.known id member⟩⟩, ?_⟩
        rintro ⟨b, i⟩ member
        exact valid.blocks i b (mem_zipIdx_iff_getElem?.mp member)

theorem blockFaults_eq_nil (none : f.blockFaults i b = []) :
    b.id = i ∧ (∀ instr ∈ b.instrs, f.instrFaults instr = []) ∧ f.termFaults b.term = [] := by
  simp only [blockFaults, append_eq_nil_iff, flatMap_eq_nil_iff, ite_eq_left_iff] at none
  refine ⟨?_, none.1.2, none.2⟩
  by_cases numbered : b.id = i
  · exact numbered
  · cases none.1.1 numbered

theorem Valid.instr (valid : f.Valid) (block : b ∈ f.blocks) {instr : Instr}
    (member : instr ∈ b.instrs) : f.instrFaults instr = [] := by
  obtain ⟨i, position⟩ := List.getElem?_of_mem block
  exact (blockFaults_eq_nil (valid.blocks i b position)).2.1 instr member

theorem Valid.term (valid : f.Valid) (block : b ∈ f.blocks) : f.termFaults b.term = [] := by
  obtain ⟨i, position⟩ := List.getElem?_of_mem block
  exact (blockFaults_eq_nil (valid.blocks i b position)).2.2

end Func

theorem Module.faults_eq_nil {m : Module} :
    m.faults = [] ↔ ∀ f, some f ∈ m.funcs → f.faults = [] := by
  rw [Module.faults, filterMap_eq_nil_iff]
  constructor
  · intro none f member
    have faultless := none _ member
    simp only at faultless
    split at faultless
    · next empty => exact isEmpty_iff.mp empty
    · cases faultless
  · intro each entry member
    cases entry with
    | none => rfl
    | some f => simp [each f member]

end MiddleEnd.Ir
