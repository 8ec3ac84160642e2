import Mathlib.Data.List.Nodup
import MiddleEnd.Diagnostic.Bag

/-!
Sorting a bag and then dropping repeats loses nothing but repeats, and of these it keeps one of the
most severe.
-/

namespace MiddleEnd

open List

variable {c : Diagnostic}

namespace Text

theorem le_trans (first : le s t) (second : le t u) : le s u := by
  induction s generalizing t u with
  | nil => rfl
  | cons a s ih =>
    cases t with
    | nil => cases first
    | cons b t =>
      cases u with
      | nil => cases second
      | cons c u => grind [le]

theorem le_total (s t : Text) : le s t ∨ le t s := by
  induction s generalizing t with
  | nil => exact .inl rfl
  | cons a s ih =>
    cases t with
    | nil => exact .inr rfl
    | cons b t => grind [le]

theorem le_antisymm (first : le s t) (second : le t s) : s = t := by
  induction s generalizing t with
  | nil =>
    cases t with
    | nil => rfl
    | cons b t => cases second
  | cons a s ih =>
    cases t with
    | nil => cases first
    | cons b t => grind [le]

end Text

/-- At least as severe as an error. -/
def Diagnostic.Severe (d : Diagnostic) : Prop := Diagnostic.Severity.error.rank ≤ d.severity.rank

theorem Diagnostic.Severe.of_rank_le {d : Diagnostic} (severe : c.Severe)
    (least : c.severity.rank ≤ d.severity.rank) : d.Severe :=
  UInt8.le_trans severe least

/-- What a repeat has in common with the diagnostic it repeats. -/
def Diagnostic.report (d : Diagnostic) : Code × Text × NodeId × Text :=
  (d.code, d.file, d.node, d.message)

/-- By file, then by node, then by severity from the highest down, then by code. -/
def Diagnostic.InOrder (c d : Diagnostic) : Prop :=
  c.file.lt d.file ∨ c.file = d.file ∧
    (c.node < d.node ∨ c.node = d.node ∧
      (d.severity.rank < c.severity.rank ∨ c.severity.rank = d.severity.rank ∧ c.code ≤ d.code))

namespace Diagnostic.Bag

theorem hasErrors_iff (b : Bag) : b.hasErrors ↔ ∃ d ∈ b.items, d.Severe := by
  simp only [hasErrors, any_eq_true, decide_eq_true_eq, Severe]

variable {ds items : List Diagnostic} {d : Diagnostic} {b : Bag}

theorem inOrder_of_precedes (before : precedes c d) : InOrder c d := by
  unfold precedes at before
  unfold InOrder
  grind

theorem repeats_iff : repeats c d ↔ c.report = d.report := by
  simp only [repeats, report, Bool.and_eq_true, beq_iff_eq, Prod.mk.injEq, and_assoc]

theorem precedes_trans (first : precedes c d) (second : precedes d e) : precedes c e := by
  unfold precedes Text.lt at *
  grind [Text.le_trans, Text.le_total, Text.le_antisymm]

theorem precedes_total (c d : Diagnostic) : precedes c d ∨ precedes d c := by
  unfold precedes Text.lt
  grind [Text.le_trans, Text.le_total, Text.le_antisymm]

theorem sort_sorted (b : Bag) : b.sort.items.Pairwise fun c d => precedes c d :=
  @pairwise_mergeSort _ precedes (fun _ _ _ => precedes_trans)
    (fun c d => Bool.or_eq_true_iff.mpr (precedes_total c d)) b.items

theorem mem_sort : d ∈ b.sort.items ↔ d ∈ b.items :=
  (mergeSort_perm b.items precedes).mem_iff

theorem rank_le_of_precedes (before : precedes c d) (same : d.report = c.report) :
    d.severity.rank ≤ c.severity.rank := by
  unfold precedes at before
  simp only [report, Prod.mk.injEq] at same
  grind

theorem dedupFrom_sublist (kept ds : List Diagnostic) : (dedupFrom kept ds).Sublist ds := by
  fun_induction dedupFrom kept ds with
  | case1 => exact .slnil
  | case2 kept d ds known ih => exact ih.cons d
  | case3 kept d ds new ih => exact ih.cons_cons d

/-- What is left repeats nothing kept before and nothing left in front of it. -/
theorem dedupFrom_nodup (kept ds : List Diagnostic) :
    (∀ d ∈ dedupFrom kept ds, ∀ c ∈ kept, d.report ≠ c.report) ∧
      ((dedupFrom kept ds).map report).Nodup := by
  fun_induction dedupFrom kept ds with
  | case1 => simp
  | case2 kept d ds known ih => exact ih
  | case3 kept d ds new ih =>
    obtain ⟨apart, nodup⟩ := ih
    have fresh : ∀ c ∈ kept, d.report ≠ c.report := by
      intro c inKept same
      exact new (any_eq_true.mpr ⟨c, inKept, repeats_iff.mpr same⟩)
    constructor
    · refine forall_mem_cons.mpr ⟨fresh, fun e later c inKept => ?_⟩
      exact apart e later c (mem_cons_of_mem d inKept)
    · refine nodup_cons.mpr ⟨fun again => ?_, nodup⟩
      obtain ⟨e, later, same⟩ := mem_map.mp again
      exact apart e later d mem_cons_self same

theorem kept_by_dedupFrom (sorted : ds.Pairwise fun c d => precedes c d)
    (front : ∀ c ∈ kept, ∀ d ∈ ds, precedes c d) (member : d ∈ ds) :
    ∃ c, (c ∈ kept ∨ c ∈ dedupFrom kept ds) ∧ d.report = c.report ∧
      d.severity.rank ≤ c.severity.rank := by
  -- `front` carries the induction: what is kept so far stands in front of all that follows.
  induction ds generalizing kept with
  | nil => cases member
  | cons e ds ih =>
    obtain ⟨leads, sorted⟩ := pairwise_cons.mp sorted
    rw [dedupFrom]
    split
    · next known =>
      obtain ⟨c, inKept, same⟩ := any_eq_true.mp known
      have same := repeats_iff.mp same
      rcases mem_cons.mp member with rfl | member
      · exact ⟨c, .inl inKept, same, rank_le_of_precedes (front c inKept d member) same⟩
      · exact ih sorted (fun c inKept d later => front c inKept d (.tail _ later)) member
    · rcases mem_cons.mp member with rfl | member
      · exact ⟨d, .inr mem_cons_self, rfl, UInt8.le_refl _⟩
      · have front' : ∀ c ∈ e :: kept, ∀ d ∈ ds, precedes c d :=
          forall_mem_cons.mpr
            ⟨leads, fun c inKept d later => front c inKept d (.tail _ later)⟩
        obtain ⟨c, place, same, least⟩ := ih sorted front' member
        refine ⟨c, ?_, same, least⟩
        rcases place with inKept | later
        · rcases mem_cons.mp inKept with rfl | inKept
          · exact .inr mem_cons_self
          · exact .inl inKept
        · exact .inr (.tail _ later)

theorem mem_of_mem_sort_dedup (member : d ∈ b.sort.dedup.items) : d ∈ b.items :=
  mem_sort.mp ((dedupFrom_sublist [] b.sort.items).mem member)

theorem kept_by_sort_dedup (member : d ∈ b.items) :
    ∃ c ∈ b.sort.dedup.items, d.report = c.report ∧ d.severity.rank ≤ c.severity.rank := by
  obtain ⟨c, place, same, least⟩ :=
    kept_by_dedupFrom b.sort_sorted (forall_mem_nil _) (mem_sort.mpr member)
  exact ⟨c, place.resolve_left not_mem_nil, same, least⟩

theorem hasErrors_sort_dedup (b : Bag) : b.sort.dedup.hasErrors ↔ b.hasErrors := by
  simp only [hasErrors_iff]
  constructor
  · rintro ⟨d, member, severe⟩
    exact ⟨d, mem_of_mem_sort_dedup member, severe⟩
  · rintro ⟨d, member, severe⟩
    obtain ⟨c, kept, -, least⟩ := kept_by_sort_dedup member
    exact ⟨c, kept, severe.of_rank_le least⟩

/-- After sorting and dropping repeats the items are in order and no two report the same. For every
report made before one is left, as severe as any that made it. -/
theorem sort_dedup_loses_only_repeats (b : Bag) :
    let left := b.sort.dedup.items
    left.Pairwise InOrder ∧
    (left.map report).Nodup ∧
    left ⊆ b.items ∧
    (∀ d ∈ b.items, ∃ c ∈ left, c.report = d.report) ∧
    (∀ c ∈ left, ∀ d ∈ b.items, d.report = c.report → d.severity.rank ≤ c.severity.rank) ∧
    b.sort.dedup.hasErrors = b.hasErrors := by
  intro left
  have nodup : (left.map report).Nodup := (dedupFrom_nodup [] b.sort.items).2
  refine ⟨?_, nodup, fun _ => mem_of_mem_sort_dedup, ?_, ?_, ?_⟩
  · exact (b.sort_sorted.imp inOrder_of_precedes).sublist (dedupFrom_sublist [] b.sort.items)
  · intro d member
    obtain ⟨c, kept, same, -⟩ := kept_by_sort_dedup member
    exact ⟨c, kept, same.symm⟩
  · intro c kept d member same
    -- The repeat that was kept is `c` itself, for no two that are left report the same.
    obtain ⟨c', kept', same', least⟩ := kept_by_sort_dedup member
    rwa [inj_on_of_nodup_map nodup kept kept' (same.symm.trans same')]
  · exact Bool.eq_iff_iff.mpr (hasErrors_sort_dedup b)

end Diagnostic.Bag

end MiddleEnd
