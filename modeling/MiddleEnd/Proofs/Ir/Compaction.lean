import MiddleEnd.Proofs.Ir.Reachability

/-!
The blocks that simplification keeps are those within reach of the entry once all jumps are
redirected.
-/

namespace MiddleEnd.Ir

open List Option

namespace Func

variable {f g h : Func} {id : BlockId} {positions : List Nat} {number : BlockId → BlockId}

/-- Control may come to the block from the entry. -/
def InReach (f : Func) : BlockId → Prop :=
  Relation.ReflTransGen
    (fun id next => ∃ b, f.block? id = some b ∧ next ∈ b.term.successors) f.entry

/-- The function with its jumps along empty blocks redirected. -/
def redirected (f : Func) : Func := f.mapTargets f.redirects.apply

theorem simplify_eq (f : Func) : f.simplify = f.redirected.keepBlocks f.redirected.reachable := rfl

theorem inReach_of_mem_reachableFrom (inSeen : ∀ id ∈ seen, f.InReach id)
    (inWork : ∀ id ∈ work, f.InReach id) (member : id ∈ f.reachableFrom fuel seen work) :
    f.InReach id := by
  induction fuel generalizing seen work with
  | zero => exact inSeen id member
  | succ fuel ih =>
    cases work with
    | nil => exact inSeen id member
    | cons next work =>
      obtain ⟨here, rest⟩ := forall_mem_cons.mp inWork
      rw [reachableFrom] at member
      split at member
      · exact ih inSeen rest member
      · split at member
        · exact ih inSeen rest member
        · next b found =>
          refine ih (forall_mem_cons.mpr ⟨here, inSeen⟩) (fun id' inside => ?_) member
          rcases mem_append.mp inside with isTarget | later
          · exact here.tail ⟨b, found, isTarget⟩
          · exact rest id' later

theorem TargetsExist.mem_reachable (exist : f.TargetsExist) : id ∈ f.reachable ↔ f.InReach id := by
  constructor
  · apply inReach_of_mem_reachableFrom
    · simp
    · intro id member
      rw [mem_singleton.mp member]
      exact .refl
  · intro reach
    obtain ⟨closed, entry⟩ := exist.reachable_closed
    induction reach with
    | refl => exact entry
    | tail before step ih =>
      obtain ⟨b, found, isTarget⟩ := step
      exact closed.successors _ ih b found _ isTarget

/-- Function `h` has the blocks of `g` at these positions, in order, and calls each block by the
number that `number` gives it. -/
structure Compacts (g h : Func) (positions : List Nat) (number : BlockId → BlockId) : Prop where
  ordered : positions.Pairwise (· < ·)
  numbers : ∀ k i : Nat, positions[k]? = some i → number i = k
  length : h.blocks.length = positions.length
  blocks : ∀ k i : Nat, positions[k]? = some i → ∃ b, g.blocks[i]? = some b ∧
    h.blocks[k]? = some { b with id := k, term := b.term.mapTargets number }
  entry : h.entry = number g.entry
  rest : h = { g with blocks := h.blocks, entry := h.entry }

theorem keepBlocks_compacts (g : Func) (kept : List BlockId) :
    g.Compacts (g.keepBlocks kept) (g.keptPositions kept) (renumber (g.keptPositions kept)) := by
  have ordered : (g.keptPositions kept).Pairwise (· < ·) := pairwise_lt_range.filter _
  have blocks : ∀ k i : Nat, (g.keptPositions kept)[k]? = some i → ∃ b, g.blocks[i]? = some b ∧
      (g.keepBlocks kept).blocks[k]? = some
        { b with id := k, term := b.term.mapTargets (renumber (g.keptPositions kept)) } := by
    intro k i position
    have bound := (mem_keptPositions.mp (mem_of_getElem? position)).1
    refine ⟨g.blocks[i], List.getElem?_eq_getElem bound, ?_⟩
    rw [keepBlocks_getElem?, position, bind_some, List.getElem?_eq_getElem bound, map_some]
  refine ⟨ordered, fun k i position => ?_, ?_, blocks, rfl, rfl⟩
  · obtain ⟨k', renumbered, position'⟩ := renumber_of_mem (mem_of_getElem? position)
    have nodup : (g.keptPositions kept).Nodup := ordered.imp Nat.ne_of_lt
    have bound := (List.getElem?_eq_some_iff.mp position).1
    rw [renumbered, (List.getElem?_inj bound nodup).mp (position.trans position'.symm)]
  · apply Nat.le_antisymm
    · rw [← List.getElem?_eq_none_iff, keepBlocks_getElem?, List.getElem?_eq_none (Nat.le_refl _)]
      rfl
    · rw [← List.getElem?_eq_none_iff]
      cases position : (g.keptPositions kept)[(g.keepBlocks kept).blocks.length]? with
      | none => rfl
      | some i =>
        obtain ⟨b, -, found⟩ := blocks _ i position
        exact absurd (List.getElem?_eq_some_iff.mp found).1 (Nat.lt_irrefl _)

namespace Compacts

variable (compacts : g.Compacts h positions number)

include compacts

theorem block? (member : i ∈ positions) :
    ∃ b, g.block? i = some b ∧
      h.block? (number i) = some { b with id := number i, term := b.term.mapTargets number } := by
  obtain ⟨k, position⟩ := List.getElem?_of_mem member
  obtain ⟨b, found, found'⟩ := compacts.blocks k i position
  refine ⟨b, (at?_natCast _ i).trans found, ?_⟩
  rw [compacts.numbers k i position]
  exact (at?_natCast _ k).trans found'

theorem origin {k : Nat} (found : h.blocks[k]? = some b') :
    ∃ i b, positions[k]? = some i ∧ g.blocks[i]? = some b ∧
      b' = { b with id := k, term := b.term.mapTargets number } := by
  have bound : k < positions.length :=
    compacts.length ▸ (List.getElem?_eq_some_iff.mp found).1
  obtain ⟨b, found', placed⟩ := compacts.blocks k _ (List.getElem?_eq_getElem bound)
  exact ⟨_, b, List.getElem?_eq_getElem bound, found', Option.some.inj (found.symm.trans placed)⟩

variable (complete : ∀ id, g.InReach id ↔ ∃ i ∈ positions, id = (i : Nat))

include complete

theorem inReach (reach : g.InReach id) : h.InReach (number id) := by
  induction reach with
  | refl =>
    rw [← compacts.entry]
    exact .refl
  | tail before step ih =>
    obtain ⟨b, found, isTarget⟩ := step
    obtain ⟨i, member, rfl⟩ := (complete _).mp before
    obtain ⟨b', found', placed⟩ := compacts.block? member
    cases found.symm.trans found'
    refine ih.tail ⟨_, placed, ?_⟩
    rw [Terminator.successors_mapTargets]
    exact mem_map_of_mem isTarget

theorem inReach_all {k : Nat} (bound : k < h.blocks.length) : h.InReach k := by
  obtain ⟨i, b, position, -⟩ := compacts.origin (List.getElem?_eq_getElem bound)
  rw [← compacts.numbers k i position]
  exact compacts.inReach complete ((complete i).mpr ⟨i, mem_of_getElem? position, rfl⟩)

theorem targetsExist : h.TargetsExist := by
  have exist : ∀ id, g.InReach id → (h.block? (number id)).isSome := by
    intro id reach
    obtain ⟨i, member, rfl⟩ := (complete id).mp reach
    obtain ⟨b, -, placed⟩ := compacts.block? member
    exact isSome_of_eq_some placed
  constructor
  · rw [compacts.entry]
    exact exist _ .refl
  · intro b' member target isTarget
    obtain ⟨k, found⟩ := List.getElem?_of_mem member
    obtain ⟨i, b, position, found', rfl⟩ := compacts.origin found
    rw [Terminator.successors_mapTargets] at isTarget
    obtain ⟨next, isNext, rfl⟩ := mem_map.mp isTarget
    have reach : g.InReach i := (complete i).mpr ⟨i, mem_of_getElem? position, rfl⟩
    exact exist next (reach.tail ⟨b, (at?_natCast _ i).trans found', isNext⟩)

end Compacts

/-- Blocks are numbered by their positions, and jumps lead to blocks. -/
structure Linked (f : Func) : Prop where
  numbered : f.Numbered
  targets : f.TargetsExist

theorem Valid.linked (valid : f.Valid) : f.Linked := ⟨valid.numbered, valid.targetsExist⟩

theorem block?_redirected (f : Func) (id : BlockId) :
    f.redirected.block? id =
      (f.block? id).map fun b => { b with term := b.term.mapTargets f.redirects.apply } :=
  at?_map _ _ _

theorem Numbered.redirected (numbered : f.Numbered) : f.redirected.Numbered := by
  intro i b position
  rw [Func.redirected, mapTargets, List.getElem?_map] at position
  obtain ⟨b', position', rfl⟩ := map_eq_some_iff.mp position
  exact numbered i b' position'

theorem Linked.redirected (linked : f.Linked) : f.redirected.Linked :=
  ⟨linked.numbered.redirected, linked.targets.mapTargets linked.numbered.redirects_skip⟩

theorem Linked.simplify_compacts (linked : f.Linked) :
    ∃ positions number, f.redirected.Compacts f.simplify positions number ∧
      ∀ id, f.redirected.InReach id ↔ ∃ i ∈ positions, id = (i : Nat) := by
  refine ⟨_, _, keepBlocks_compacts f.redirected f.redirected.reachable, fun id => ?_⟩
  rw [← linked.redirected.targets.mem_reachable]
  constructor
  · intro member
    have exists' := linked.redirected.targets.reachable_closed.1.exist id member
    obtain ⟨nonneg, bound⟩ := at?_isSome_iff.mp exists'
    obtain ⟨i, rfl⟩ := Int.eq_ofNat_of_zero_le nonneg
    exact ⟨i, mem_keptPositions.mpr ⟨Int.ofNat_lt.mp bound, member⟩, rfl⟩
  · rintro ⟨i, member, rfl⟩
    exact (mem_keptPositions.mp member).2

theorem Linked.simplify (linked : f.Linked) : f.simplify.Linked := by
  obtain ⟨positions, number, compacts, complete⟩ := linked.simplify_compacts
  refine ⟨fun k b' found => ?_, compacts.targetsExist complete⟩
  obtain ⟨i, b, -, -, rfl⟩ := compacts.origin found
  rfl

theorem Linked.inReach_simplify (linked : f.Linked) (k : Nat)
    (bound : k < f.simplify.blocks.length) : f.simplify.InReach k := by
  obtain ⟨positions, number, compacts, complete⟩ := linked.simplify_compacts
  exact compacts.inReach_all complete bound

end Func

/-- Simplification keeps exactly the blocks within reach behind the redirects, in order and with
their code, under one renumbering of blocks, targets and entry. -/
theorem simplify_keeps_reachable {f : Func} (valid : f.faults = []) :
    (∃ positions number, f.redirected.Compacts f.simplify positions number ∧
      ∀ id, f.redirected.InReach id ↔ ∃ i ∈ positions, id = (i : Nat)) ∧
    (∀ k : Nat, k < f.simplify.blocks.length → f.simplify.InReach k) ∧
    f.simplify.TargetsExist := by
  have linked := (f.faults_eq_nil_iff.mp valid).linked
  exact ⟨linked.simplify_compacts, linked.inReach_simplify, linked.simplify.targets⟩

theorem spinOrReturn_simplify_blocks :
    spinOrReturn.simplify.blocks =
      [⟨0, [], .ret none⟩, ⟨1, [], .goto 1⟩, ⟨2, [.load 0 0], .branch (.value 0 .i1) 1 0⟩] := by
  decide

theorem spinOrReturn_keeps_reachable :
    spinOrReturn.faults = [] ∧ spinOrReturn.simplify.blocks.length = 3 ∧
    (∃ positions number, spinOrReturn.redirected.Compacts spinOrReturn.simplify positions number ∧
      ∀ id, spinOrReturn.redirected.InReach id ↔ ∃ i ∈ positions, id = (i : Nat)) ∧
    (∀ k : Nat, k < 3 → spinOrReturn.simplify.InReach k) ∧
    spinOrReturn.simplify.TargetsExist := by
  have valid : spinOrReturn.faults = [] := by decide
  have length : spinOrReturn.simplify.blocks.length = 3 := by rw [spinOrReturn_simplify_blocks]; rfl
  obtain ⟨compacts, inReach, exist⟩ := simplify_keeps_reachable valid
  rw [length] at inReach
  exact ⟨valid, length, compacts, inReach, exist⟩

end MiddleEnd.Ir
