import MiddleEnd.Proofs.Ir.Chains
import Mathlib.Data.List.Basic

/-!
Blocks that control cannot reach can go: renumbering a set of blocks that control does not leave
changes no run inside it.
-/

namespace MiddleEnd.Ir

open List Option

variable {target : BlockId}

theorem Terminator.target_mem_successors {term : Terminator}
    (goesOn : term.exec m = .into target m') : target ∈ term.successors := by
  cases term with
  | goto next =>
    cases goesOn
    exact mem_singleton_self _
  | branch cond yes no =>
    simp only [exec] at goesOn
    split at goesOn
    · next b _ =>
      cases goesOn
      cases b <;> simp [successors]
    · cases goesOn
    · cases goesOn
  | ret value =>
    cases value with
    | none => cases goesOn
    | some value =>
      simp only [exec] at goesOn
      split at goesOn <;> cases goesOn
  | pending | unreachable | unknown => cases goesOn

theorem target_mem_successors (goesOn : finish ops slots m instrs term = .into target m') :
    target ∈ term.successors := by
  unfold finish at goesOn
  split at goesOn
  · exact Terminator.target_mem_successors goesOn
  · cases goesOn

theorem Terminator.successors_length (term : Terminator) : term.successors.length ≤ 2 := by
  cases term <;> simp [successors]

namespace Func

variable {f : Func} {ops : TruthOperators}

/-- The entry and all targets of jumps are blocks of the function. -/
structure TargetsExist (f : Func) : Prop where
  entry : (f.block? f.entry).isSome
  targets : ∀ b ∈ f.blocks, ∀ target ∈ b.term.successors, (f.block? target).isSome

theorem Valid.targetsExist (valid : f.Valid) : f.TargetsExist := by
  refine ⟨valid.entry, fun b member target isTarget => ?_⟩
  have faultless := valid.term member
  generalize b.term = term at faultless isTarget
  cases term with
  | goto next =>
    cases mem_singleton.mp isTarget
    simpa [termFaults, isSome_iff_ne_none] using faultless
  | branch cond yes no =>
    simp only [termFaults, append_eq_nil_iff, ite_eq_left_iff] at faultless
    simp only [Terminator.successors, mem_cons, not_mem_nil, or_false] at isTarget
    rcases isTarget with rfl | rfl
    · simpa [isSome_iff_ne_none] using faultless.1.2
    · simpa [isSome_iff_ne_none] using faultless.2
  | pending | ret | unreachable | unknown => cases isTarget

variable {id : BlockId} {seen work kept : List BlockId}

theorem TargetsExist.skips (exist : f.TargetsExist) (skips : f.Skips id target)
    (known : (f.block? id).isSome) : (f.block? target).isSome := by
  induction skips with
  | refl => exact known
  | tail before last ih =>
    obtain ⟨b, found, -, jumps⟩ := skip?_eq_some last
    obtain ⟨i, -, position⟩ := at?_eq_some found
    exact exist.targets b (mem_of_getElem? position) _ (by
      simp [jumps, Terminator.successors])

theorem TargetsExist.mapTargets (exist : f.TargetsExist) {change : BlockId → BlockId}
    (skips : ∀ id, f.Skips id (change id)) : (f.mapTargets change).TargetsExist := by
  have known : ∀ {id}, (f.block? id).isSome →
      ((f.mapTargets change).block? (change id)).isSome := by
    intro id found
    simp only [block?, Func.mapTargets, at?_map, isSome_map]
    exact exist.skips (skips id) found
  refine ⟨known exist.entry, fun b' member target isTarget => ?_⟩
  obtain ⟨b, inBlocks, rfl⟩ := mem_map.mp member
  rw [Terminator.successors_mapTargets] at isTarget
  obtain ⟨earlier, isEarlier, rfl⟩ := mem_map.mp isTarget
  exact known (exist.targets b inBlocks earlier isEarlier)

/-- Control that is inside a set of blocks stays inside. -/
structure Closed (f : Func) (ids : List BlockId) : Prop where
  exist : ∀ id ∈ ids, (f.block? id).isSome
  successors : ∀ id ∈ ids, ∀ b, f.block? id = some b → ∀ next ∈ b.term.successors, next ∈ ids

/-- The walk has met the blocks in `seen` and has still to look at those in `work`. -/
structure Explored (f : Func) (seen work : List BlockId) : Prop where
  nodup : seen.Nodup
  exist : ∀ id ∈ seen, (f.block? id).isSome
  waiting : ∀ id ∈ work, (f.block? id).isSome
  successors : ∀ id ∈ seen, ∀ b, f.block? id = some b → ∀ next ∈ b.term.successors,
    next ∈ seen ∨ next ∈ work

theorem Explored.skip (explored : f.Explored seen (id :: work)) (again : id ∈ seen) :
    f.Explored seen work where
  nodup := explored.nodup
  exist := explored.exist
  waiting other member := explored.waiting other (mem_cons_of_mem _ member)
  successors other member b found next isNext := by
    rcases explored.successors other member b found next isNext with inSeen | inWork
    · exact .inl inSeen
    · rcases mem_cons.mp inWork with rfl | inWork
      · exact .inl again
      · exact .inr inWork

theorem Explored.visit (exist : f.TargetsExist) (explored : f.Explored seen (id :: work))
    (new : id ∉ seen) (found : f.block? id = some b) :
    f.Explored (id :: seen) (b.term.successors ++ work) where
  nodup := nodup_cons.mpr ⟨new, explored.nodup⟩
  exist other member := by
    rcases mem_cons.mp member with rfl | inSeen
    · exact explored.waiting _ mem_cons_self
    · exact explored.exist other inSeen
  waiting other member := by
    rcases mem_append.mp member with isNext | inWork
    · obtain ⟨i, -, position⟩ := at?_eq_some found
      exact exist.targets b (mem_of_getElem? position) other isNext
    · exact explored.waiting other (mem_cons_of_mem _ inWork)
  successors other member b' found' next isNext := by
    rcases mem_cons.mp member with rfl | inSeen
    · cases found.symm.trans found'
      exact .inr (mem_append_left _ isNext)
    · rcases explored.successors other inSeen b' found' next isNext with inSeen | inWork
      · exact .inl (mem_cons_of_mem _ inSeen)
      · rcases mem_cons.mp inWork with rfl | inWork
        · exact .inl mem_cons_self
        · exact .inr (mem_append_right _ inWork)

theorem reachableFrom_closed (exist : f.TargetsExist) (explored : f.Explored seen work)
    (enough : work.length + 2 * (f.blocks.length - seen.length) ≤ fuel) :
    f.Closed (f.reachableFrom fuel seen work) ∧ seen ⊆ f.reachableFrom fuel seen work ∧
      work ⊆ f.reachableFrom fuel seen work := by
  have finished : ∀ {seen}, f.Explored seen [] → f.Closed seen := fun explored =>
    ⟨explored.exist, fun id member b found next isNext =>
      (explored.successors id member b found next isNext).resolve_right not_mem_nil⟩
  induction fuel generalizing seen work with
  | zero =>
    obtain rfl : work = [] := length_eq_zero_iff.mp (by omega)
    exact ⟨finished explored, List.Subset.refl _, nil_subset _⟩
  | succ fuel ih =>
    cases work with
    | nil => exact ⟨finished explored, List.Subset.refl _, nil_subset _⟩
    | cons id work =>
      rw [length_cons] at enough
      by_cases again : id ∈ seen
      · have skipped : f.reachableFrom (fuel + 1) seen (id :: work) =
            f.reachableFrom fuel seen work := by
          simp [reachableFrom, again]
        obtain ⟨closed, inSeen, inWork⟩ := ih (explored.skip again) (by omega)
        rw [skipped]
        exact ⟨closed, inSeen, cons_subset.mpr ⟨inSeen again, inWork⟩⟩
      · obtain ⟨b, found⟩ :=
          isSome_iff_exists.mp (explored.waiting id mem_cons_self)
        have visited : f.reachableFrom (fuel + 1) seen (id :: work) =
            f.reachableFrom fuel (id :: seen) (b.term.successors ++ work) := by
          simp [reachableFrom, again, found]
        have explored' := explored.visit exist again found
        have bound := length_le_of_exist explored'.nodup explored'.exist
        have few := b.term.successors_length
        obtain ⟨closed, inSeen, inWork⟩ := ih explored' (by
          rw [length_append, length_cons]
          rw [length_cons] at bound
          omega)
        rw [visited]
        obtain ⟨here, inSeen⟩ := cons_subset.mp inSeen
        exact ⟨closed, inSeen, cons_subset.mpr
          ⟨here, List.Subset.trans (subset_append_right _ _) inWork⟩⟩

theorem TargetsExist.reachable_closed (exist : f.TargetsExist) :
    f.Closed f.reachable ∧ f.entry ∈ f.reachable := by
  have explored : f.Explored [] [f.entry] :=
    ⟨nodup_nil, by simp, by simpa using exist.entry, by simp⟩
  have enough : [f.entry].length + 2 * (f.blocks.length - ([] : List BlockId).length) ≤
      2 * f.blocks.length + 2 := by
    rw [length_singleton, length_nil]
    omega
  obtain ⟨closed, -, inWork⟩ := reachableFrom_closed exist explored enough
  exact ⟨closed, inWork mem_cons_self⟩

/-- The positions of the blocks that are kept, in order. -/
def keptPositions (f : Func) (kept : List BlockId) : List Nat :=
  (List.range f.blocks.length).filter fun (i : Nat) => kept.contains (i : Int)

/-- The new number of a block, given the positions that are kept. -/
def renumber (positions : List Nat) (id : BlockId) : BlockId :=
  match positions.findIdx? fun (i : Nat) => (i : Int) == id with
  | some position => position
  | none => id

theorem mem_keptPositions : i ∈ f.keptPositions kept ↔ i < f.blocks.length ∧ (i : Int) ∈ kept := by
  simp [keptPositions]

theorem renumber_of_mem {i : Nat} (member : i ∈ positions) :
    ∃ position : Nat, renumber positions i = position ∧ positions[position]? = some i := by
  unfold renumber
  cases found : positions.findIdx? fun (j : Nat) => (j : Int) == (i : Int) with
  | none =>
    have absent := List.findIdx?_eq_none_iff.mp found i member
    simp at absent
  | some position =>
    obtain ⟨bound, same, -⟩ := List.findIdx?_eq_some_iff_getElem.mp found
    refine ⟨position, rfl, ?_⟩
    rw [List.getElem?_eq_getElem bound]
    exact congrArg some (Int.ofNat.inj (eq_of_beq same))

theorem keepBlocks_getElem? (kept : List BlockId) (position : Nat) :
    (f.keepBlocks kept).blocks[position]? =
      (f.keptPositions kept)[position]?.bind fun i => f.blocks[i]?.map fun b =>
        { b with
          id := position
          term := b.term.mapTargets (renumber (f.keptPositions kept)) } := by
  let place (found : Nat × Nat) : Option Block := f.blocks[found.1]?.map fun b =>
    { b with id := found.2, term := b.term.mapTargets (renumber (f.keptPositions kept)) }
  have total : (f.keptPositions kept).zipIdx.filterMap place =
      (f.keptPositions kept).zipIdx.map fun found => (place found).getD default := by
    refine filterMap_eq_map_iff_forall_eq_some.mpr fun found member => ?_
    have bound := (mem_keptPositions.mp (fst_mem_of_mem_zipIdx member)).1
    simp only [place, List.getElem?_eq_getElem bound, map_some, getD_some]
  have unfolded : (f.keepBlocks kept).blocks = (f.keptPositions kept).zipIdx.filterMap place := rfl
  rw [unfolded, total, List.getElem?_map, List.getElem?_zipIdx, Nat.zero_add]
  cases here : (f.keptPositions kept)[position]? with
  | none => rfl
  | some i =>
    have bound := (mem_keptPositions.mp (mem_of_getElem? here)).1
    simp only [map_some, place, List.getElem?_eq_getElem bound, getD_some, bind_some]

theorem block?_keepBlocks {b : Block} (member : id ∈ kept) (found : f.block? id = some b) :
    ∃ position : Nat, renumber (f.keptPositions kept) id = position ∧
      (f.keepBlocks kept).block? position = some
        { b with
          id := position
          term := b.term.mapTargets (renumber (f.keptPositions kept)) } := by
  obtain ⟨i, rfl, here⟩ := at?_eq_some found
  have bound := (List.getElem?_eq_some_iff.mp here).1
  obtain ⟨position, renumbered, kept⟩ :=
    renumber_of_mem (mem_keptPositions.mpr ⟨bound, member⟩)
  refine ⟨position, renumbered, ?_⟩
  rw [block?, at?_natCast, keepBlocks_getElem?, kept, bind_some, here, map_some]

theorem Closed.runFrom_keepBlocks (closed : f.Closed kept) (fuel : Nat) (member : id ∈ kept)
    (m : Machine) :
    (f.keepBlocks kept).runFrom ops fuel (renumber (f.keptPositions kept) id) m =
      f.runFrom ops fuel id m := by
  induction fuel generalizing id m with
  | zero => rfl
  | succ fuel ih =>
    obtain ⟨b, found⟩ := isSome_iff_exists.mp (closed.exist id member)
    obtain ⟨position, renumbered, found'⟩ := block?_keepBlocks member found
    have slots : (f.keepBlocks kept).locals = f.locals := rfl
    simp only [runFrom, step, renumbered, found', found, slots, finish_mapTargets]
    cases stepped : finish ops f.locals m b.instrs b.term with
    | out exit => rfl
    | into target m' =>
      exact ih (closed.successors id member b found target (target_mem_successors stepped)) m'

theorem Closed.ends_keepBlocks (closed : f.Closed kept) (entry : f.entry ∈ kept)
    (locals : LocalId → Constant) (exit : Exit) :
    (f.keepBlocks kept).Ends ops locals exit ↔ f.Ends ops locals exit :=
  exists_congr fun fuel => by
    rw [run, run, ← closed.runFrom_keepBlocks fuel entry]
    rfl

theorem diverges_iff_not_ends {locals : LocalId → Constant} :
    f.Diverges ops locals ↔ ∀ exit, ¬ f.Ends ops locals exit := by
  constructor
  · rintro diverges exit ⟨fuel, ends⟩
    rw [diverges fuel] at ends
    cases ends
  · intro never fuel
    cases ran : f.run ops fuel locals with
    | none => rfl
    | some exit => exact absurd ⟨fuel, ran⟩ (never exit)

end Func

/-- Control-flow simplification keeps the outcome of every valid function, whatever its slots hold
at first. -/
theorem simplify_preserves_outcomes {f : Func} (valid : f.faults = []) (ops : TruthOperators)
    (locals : LocalId → Constant) :
    (∀ exit, f.simplify.Ends ops locals exit ↔ f.Ends ops locals exit) ∧
      (f.simplify.Diverges ops locals ↔ f.Diverges ops locals) := by
  have valid := f.faults_eq_nil_iff.mp valid
  have ends : ∀ exit, f.simplify.Ends ops locals exit ↔ f.Ends ops locals exit := by
    intro exit
    obtain ⟨closed, entry⟩ :=
      (valid.targetsExist.mapTargets valid.redirects_skip).reachable_closed
    exact (closed.ends_keepBlocks entry locals exit).trans
      (Func.ends_mapTargets valid.redirects_skip locals exit)
  exact ⟨ends, by simp only [Func.diverges_iff_not_ends, ends]⟩

/-- Where the slot holds true, control goes round in two empty blocks; otherwise it comes through an
empty block to a return. The last block is out of reach. -/
def spinOrReturn : Func where
  id := 0
  name := Text.ofString "spin"
  result := .void
  params := []
  locals := [⟨.i1, Text.ofString "again"⟩]
  values := [.i1]
  blocks := [
    ⟨0, [], .ret none⟩,
    ⟨1, [], .goto 3⟩,
    ⟨2, [.load 0 0], .branch (.value 0 .i1) 1 5⟩,
    ⟨3, [], .goto 1⟩,
    ⟨4, [], .goto 2⟩,
    ⟨5, [], .goto 0⟩,
    ⟨6, [], .goto 4⟩]
  entry := 4

theorem spinOrReturn_spins (ops : TruthOperators) (fuel : Nat) (m : Machine) :
    spinOrReturn.runFrom ops fuel 1 m = none ∧ spinOrReturn.runFrom ops fuel 3 m = none := by
  induction fuel with
  | zero => exact ⟨rfl, rfl⟩
  | succ fuel ih => exact ⟨ih.2, ih.1⟩

theorem spinOrReturn_enters (ops : TruthOperators) {locals : LocalId → Constant}
    (held : locals 0 = .bool again) (fuel : Nat) :
    spinOrReturn.run ops (fuel + 2) locals =
      spinOrReturn.runFrom ops fuel (if again then 1 else 5)
        ((Machine.start locals).define 0 (.bool again)) := by
  have first : spinOrReturn.step ops 4 (.start locals) = .into 2 (.start locals) := rfl
  have second : spinOrReturn.step ops 2 (.start locals) =
      .into (if again then 1 else 5) ((Machine.start locals).define 0 (.bool again)) := by
    rw [← held]
    change (Terminator.branch (.value 0 .i1) 1 5).exec
      ((Machine.start locals).define 0 (locals 0)) = _
    simp only [Terminator.exec, Machine.read, Operand.eval, Machine.define_same, held]
  change spinOrReturn.runFrom ops (fuel + 2) 4 (.start locals) = _
  simp only [Func.runFrom, first, second]

theorem spinOrReturn_simplify :
    spinOrReturn.faults = [] ∧ spinOrReturn.simplify.blocks.length = 3 ∧ ∀ ops locals,
      (locals 0 = .bool false → spinOrReturn.simplify.Ends ops locals (.returned none)) ∧
      (locals 0 = .bool true → spinOrReturn.simplify.Diverges ops locals) := by
  have valid : spinOrReturn.faults = [] := by decide
  refine ⟨valid, by decide, fun ops locals => ?_⟩
  obtain ⟨ends, diverges⟩ := simplify_preserves_outcomes valid ops locals
  constructor
  · intro leaves
    exact (ends _).mpr ⟨4, spinOrReturn_enters ops leaves 2⟩
  · intro spins
    refine diverges.mpr fun fuel => ?_
    match fuel with
    | 0 => rfl
    | 1 => rfl
    | fuel + 2 =>
      rw [spinOrReturn_enters ops spins]
      exact (spinOrReturn_spins ops fuel _).1

end MiddleEnd.Ir
