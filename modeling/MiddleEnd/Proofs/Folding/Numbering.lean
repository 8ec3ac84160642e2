import MiddleEnd.Proofs.Folding.Normal
import MiddleEnd.Proofs.Folding.Nodes
import MiddleEnd.Proofs.Interchange.Files

/-!
The nodes of a folded module have numbers that nodes of the module have, in the same order and none
more often.
-/

namespace MiddleEnd

open List

variable {m : Module}

theorem Visited.id_mapNames (rename : Text → Text) (v : Visited) :
    (v.mapNames rename).id = v.id := by
  cases v with
  | func f => rfl
  | expr e => cases e <;> rfl
  | stmt s =>
    cases s with
    | block node stmts => cases stmts <;> rfl
    | _ => rfl

namespace Module

theorem nodeIds_mapNames (rename : Text → Text) (m : Module) :
    (m.mapNames rename).nodeIds = m.nodeIds := by
  rw [nodeIds, nodeIds, nodes_mapNames, map_map]
  refine congrArg _ (map_congr_left fun v _ => ?_)
  exact v.id_mapNames rename

theorem Numbered.mapNames (numbered : m.Numbered) (rename : Text → Text) :
    (m.mapNames rename).Numbered := by
  rw [Numbered, nodeIds_mapNames]
  exact numbered

theorem nodeIds_foldEntries {entries : List (Option Func)}
    (equation : foldEntries entries = .ok folded) :
    (folded.flatMap fun entry => entry.elim [] Func.nodeIds).Sublist
      (entries.flatMap fun entry => entry.elim [] Func.nodeIds) := by
  induction entries generalizing folded with
  | nil =>
    cases equation
    exact List.Sublist.refl _
  | cons entry rest ih =>
    cases entry with
    | none =>
      obtain ⟨rest', restFolded, equation⟩ := bind_eq_ok.mp equation
      cases equation
      rw [flatMap_cons, flatMap_cons]
      exact (List.Sublist.refl _).append (ih restFolded)
    | some f =>
      obtain ⟨f', funcFolded, equation⟩ := bind_eq_ok.mp equation
      obtain ⟨rest', restFolded, equation⟩ := bind_eq_ok.mp equation
      cases equation
      rw [flatMap_cons, flatMap_cons]
      exact (Func.nodeIds_fold (mapError_eq_ok.mp funcFolded)).append (ih restFolded)

theorem nodes_fold {folded : Module} (equation : m.fold = .ok folded) :
    (folded.nodes.map Visited.id).Sublist (m.nodes.map Visited.id) := by
  obtain ⟨funcs, entriesFolded, rfl⟩ := fold_eq_ok equation
  have sublist := nodeIds_foldEntries entriesFolded
  have before := tail_eq_of_cons_eq m.nodeIds_eq
  have after := tail_eq_of_cons_eq { m with funcs := some funcs }.nodeIds_eq
  rw [before, after]
  exact sublist

theorem numbered_fold (numbered : m.Numbered) (equation : m.fold = .ok folded) :
    folded.Numbered := by
  have sublist : folded.nodeIds.Sublist m.nodeIds := by
    obtain ⟨funcs, -, rfl⟩ := fold_eq_ok equation
    exact (nodes_fold equation).cons_cons m.id
  exact ⟨sublist.nodup numbered.1, fun zero => numbered.2 (sublist.subset zero)⟩

end Module

namespace Interchange

theorem checkedModule_numbered (normalize : Text → Text) (found : Module.ofDatum d = some m)
    (numbered : m.Numbered) : checkedModule normalize d = .ok (m.mapNames normalize) := by
  unfold checkedModule
  rw [found]
  simp only [Module.idProblems_eq_nil.mpr (numbered.mapNames normalize)]

end Interchange

open Interchange

/-- Folding neither repeats nor invents a number. So no complaint arises about a module of which
there was none, and what the module of a file folds to can be read from a file again. -/
theorem Module.fold_keeps_numbers {m folded : Module} (equation : m.fold = .ok folded) :
    folded.id = m.id ∧ (folded.nodes.map Visited.id).Sublist (m.nodes.map Visited.id) ∧
      (m.idProblems = [] → folded.idProblems = []) ∧
      ∀ (normalize : Text → Text) (format : Format) (t : Text) (file : File),
        decode normalize format t = .ok file → file.module = m →
          ∀ d, Module.ofDatum d = some folded →
            checkedModule normalize d = .ok (folded.mapNames normalize) := by
  refine ⟨?_, nodes_fold equation, fun clean => ?_,
    fun normalize format t file decoded same d found => ?_⟩
  · obtain ⟨funcs, -, rfl⟩ := fold_eq_ok equation
    rfl
  · have numbered := idProblems_eq_nil.mp clean
    exact idProblems_eq_nil.mpr (numbered_fold numbered equation)
  · obtain ⟨raw, decoded⟩ := decoded_of_decode decoded
    have numbered := decoded.numbered
    rw [same] at numbered
    exact checkedModule_numbered normalize found (Module.numbered_fold numbered equation)

/-- Of the two modules the first loses a third of its nodes, and the second is read from a file. -/
theorem folded_numbers_are_kept :
    (∃ folded, unkempt.fold = .ok folded ∧
      folded.nodes.map Visited.id = [2, 3, 4, 5, 9, 11, 12, 13, 18, 19, 20, 21, 22, 23] ∧
      unkempt.idProblems = [] ∧ folded.idProblems = []) ∧
    ∃ t folded, decode Text.normalize .messagePack t = .ok { keptApart with schema := 1 } ∧
      keptApart.module.fold = .ok folded ∧
      checkedModule Text.normalize folded.toDatum = .ok (folded.mapNames Text.normalize) := by
  constructor
  · obtain ⟨folded, equation⟩ : ∃ folded, unkempt.fold = .ok folded := ⟨_, rfl⟩
    have clean : unkempt.idProblems = [] := by decide +kernel
    refine ⟨folded, equation, ?_, clean, (Module.fold_keeps_numbers equation).2.2.1 clean⟩
    cases equation
    decide +kernel
  · have normal : ∀ name ∈ keptApart.module.names, Text.normalize name = name := by decide +kernel
    obtain ⟨t, -, decoded⟩ := decode_encode (.inl rfl) (by decide)
      (keptApart_representable .messagePack) ⟨by decide, by decide⟩ normal
      fun other => by cases other
    obtain ⟨folded, equation⟩ : ∃ folded, keptApart.module.fold = .ok folded := ⟨_, rfl⟩
    refine ⟨t, folded, decoded, equation, ?_⟩
    refine (Module.fold_keeps_numbers equation).2.2.2 _ _ t _ decoded rfl _ ?_
    cases equation
    rfl

end MiddleEnd
