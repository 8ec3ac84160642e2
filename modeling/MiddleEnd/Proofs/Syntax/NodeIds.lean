import MiddleEnd.Proofs.Syntax.Nodes
import MiddleEnd.Syntax.NodeIds

/-!
The check of node ids complains of each node that has none and of each that repeats one, in walk
order, and of no other.
-/

namespace MiddleEnd

open List

theorem idProblemsFrom_eq_nil :
    idProblemsFrom seen nodes = [] ↔ (∀ node ∈ nodes, node.id ≠ 0) ∧
      (nodes.map Labelled.id).Nodup ∧ ∀ node ∈ nodes, node.id ∉ seen := by
  induction nodes generalizing seen with
  | nil => simp [idProblemsFrom]
  | cons node rest ih =>
    rw [idProblemsFrom]
    split
    · next missing => simp [missing]
    · next numbered =>
      split
      · next repeated => simp [repeated]
      · next fresh =>
        rw [ih]
        simp only [map_cons, nodup_cons, mem_map, mem_cons, not_or]
        grind

theorem Module.idProblems_eq_nil {m : Module} : m.idProblems = [] ↔ m.Numbered := by
  have ids : m.labelled.map Labelled.id = m.nodeIds := by
    rw [labelled, nodeIds, map_cons, map_map]
    rfl
  rw [idProblems, idProblemsFrom_eq_nil, Numbered, ids, ← ids]
  simp only [mem_map, not_mem_nil, not_false_eq_true, implies_true, and_true]
  grind

/-- What is wrong with the number of a node behind others. -/
def Labelled.problem? (earlier : List Labelled) (node : Labelled) : Option IdProblem :=
  if node.id = 0 then some (.missing node.label)
  else if node.id ∈ earlier.map Labelled.id then some (.repeated node.id node.label)
  else none

theorem idProblemsFrom_eq {seen : List NodeId} {before : List Labelled} (rest : List Labelled)
    (same : ∀ id, id ≠ 0 → (id ∈ seen ↔ id ∈ before.map Labelled.id)) :
    idProblemsFrom seen rest = (rest.zipIdx before.length).filterMap fun place =>
      place.1.problem? ((before ++ rest).take place.2) := by
  -- Numbers that are zero or seen already are not noted again, so `seen` lacks the zeros only.
  induction rest generalizing seen before with
  | nil => rfl
  | cons node rest ih =>
    have onward : ∀ {seen'}, (∀ id, id ≠ 0 → (id ∈ seen' ↔ id = node.id ∨ id ∈ seen)) →
        idProblemsFrom seen' rest = (rest.zipIdx (before.length + 1)).filterMap fun place =>
          place.1.problem? ((before ++ node :: rest).take place.2) := by
      intro seen' noted
      have tail := @ih seen' (before ++ [node]) fun id numbered => by
        rw [noted id numbered, same id numbered]
        simp [or_comm]
      simpa only [length_append, length_singleton, append_assoc, singleton_append] using tail
    have front : (before ++ node :: rest).take before.length = before := take_left' rfl
    rw [zipIdx_cons, idProblemsFrom]
    split
    · next missing =>
      have here : node.problem? before = some (.missing node.label) := if_pos missing
      rw [filterMap_cons_some (front.symm ▸ here),
        onward fun id numbered => by simp [missing, numbered]]
    · next numbered =>
      have known := same node.id numbered
      split
      · next repeated =>
        have here : node.problem? before = some (.repeated node.id node.label) := by
          rw [Labelled.problem?, if_neg numbered, if_pos (known.mp repeated)]
        rw [filterMap_cons_some (front.symm ▸ here), onward fun id _ => ?_]
        exact (or_iff_right_of_imp fun same => same ▸ repeated).symm
      · next fresh =>
        have here : node.problem? before = none := by
          rw [Labelled.problem?, if_neg numbered, if_neg (mt known.mpr fresh)]
        rw [filterMap_cons_none (front.symm ▸ here), onward fun id _ => mem_cons]

/-- There is one complaint for each node without number and one for each whose number stands earlier
in the walk, in its order. -/
theorem idProblems_exact (m : Module) :
    (m.idProblems = [] ↔ m.Numbered) ∧
    m.idProblems = m.labelled.zipIdx.filterMap fun place =>
      place.1.problem? (m.labelled.take place.2) := by
  refine ⟨Module.idProblems_eq_nil, ?_⟩
  exact @idProblemsFrom_eq [] [] m.labelled fun _ _ => Iff.rfl

end MiddleEnd
