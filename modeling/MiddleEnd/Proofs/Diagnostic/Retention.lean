import MiddleEnd.Proofs.Diagnostic.Bag

/-!
What a bag keeps: the highest severities of those added, in whatever order they come.
-/

namespace MiddleEnd.Diagnostic.Bag

open List

variable {ds items lost added : List Diagnostic} {d : Diagnostic} {b : Bag}

theorem leastRank_cons (c : Diagnostic) (more : ds ≠ []) :
    leastRank (c :: ds) =
      if c.severity.rank ≤ leastRank ds then c.severity.rank else leastRank ds := by
  cases ds with
  | nil => exact absurd rfl more
  | cons d ds => rfl

theorem exists_leastRank (nonempty : items ≠ []) :
    ∃ d ∈ items, d.severity.rank = leastRank items := by
  induction items with
  | nil => exact absurd rfl nonempty
  | cons c ds ih =>
    cases ds with
    | nil => exact ⟨c, mem_cons_self, rfl⟩
    | cons _ _ =>
      rw [leastRank_cons c (cons_ne_nil _ _)]
      split
      · exact ⟨c, mem_cons_self, rfl⟩
      · obtain ⟨d, member, least⟩ := ih (cons_ne_nil _ _)
        exact ⟨d, mem_cons_of_mem c member, least⟩

theorem rank_leastSevere (nonempty : items ≠ []) :
    ∃ d, items[leastSevere items]? = some d ∧ d.severity.rank = leastRank items := by
  obtain ⟨d, member, least⟩ := exists_leastRank nonempty
  have inside : leastSevere items < items.length :=
    findIdx_lt_length_of_exists ⟨d, member, by simpa using least⟩
  refine ⟨items[leastSevere items], List.getElem?_eq_getElem inside, ?_⟩
  exact eq_of_beq (findIdx_getElem (w := inside))

theorem leastRank_le (member : d ∈ items) : leastRank items ≤ d.severity.rank := by
  induction items with
  | nil => cases member
  | cons c ds ih =>
    cases ds with
    | nil =>
      rw [mem_singleton.mp member]
      exact UInt8.le_refl _
    | cons _ _ =>
      rw [leastRank_cons c (cons_ne_nil _ _)]
      rcases mem_cons.mp member with rfl | later
      · split
        · exact UInt8.le_refl _
        · next above => exact (UInt8.le_total _ _).resolve_left above
      · split
        · next below => exact UInt8.le_trans below (ih later)
        · exact ih later

/-- A diagnostic is added behind the others, takes the place of a less severe one, or is dropped. -/
theorem add_cases (b : Bag) (d : Diagnostic) :
    (b.items.length < b.limit ∧ b.add d = ({ b with items := b.items ++ [d] }, true)) ∨
      (b.limit ≤ b.items.length ∧ leastRank b.items < d.severity.rank ∧
        b.add d =
          ({ b with items := b.items.set (leastSevere b.items) d, dropped := b.dropped + 1 },
            true)) ∨
      (b.limit ≤ b.items.length ∧ d.severity.rank ≤ leastRank b.items ∧
        b.add d = ({ b with dropped := b.dropped + 1 }, false)) := by
  unfold add
  dsimp only
  split
  · next room => exact .inl ⟨room, rfl⟩
  · next full =>
    have full := Nat.le_of_not_lt full
    split
    · next weaker => exact .inr (.inl ⟨full, weaker, rfl⟩)
    · next strong => exact .inr (.inr ⟨full, UInt8.not_lt.mp strong, rfl⟩)

@[simp] theorem limit_add (b : Bag) (d : Diagnostic) : (b.add d).1.limit = b.limit := by
  rcases add_cases b d with ⟨-, added⟩ | ⟨-, -, added⟩ | ⟨-, -, added⟩ <;> rw [added]

theorem limit_empty_pos (limit : Int) : 0 < (empty limit).limit := by
  dsimp only [empty]
  split
  · exact Nat.zero_lt_succ _
  · omega

theorem cons_set_perm (found : items[i]? = some out) (d : Diagnostic) :
    (out :: items.set i d).Perm (d :: items) := by
  induction items generalizing i with
  | nil => cases found
  | cons c rest ih =>
    cases i with
    | zero =>
      cases found
      exact .swap ..
    | succ i => exact (List.Perm.swap ..).trans (((ih found).cons c).trans (.swap ..))

/-- What is kept and what is lost is all that was added. Nothing lost is more severe than anything
kept, and something is lost only from a full bag. -/
structure Keeps (b : Bag) (lost added : List Diagnostic) : Prop where
  all : (b.items ++ lost).Perm added
  lesser : ∀ c ∈ b.items, ∀ d ∈ lost, d.severity.rank ≤ c.severity.rank
  bounded : b.items.length ≤ b.limit
  full : lost ≠ [] → b.items.length = b.limit
  dropped : b.dropped = lost.length

theorem Keeps.empty (limit : Int) : (empty limit).Keeps [] [] where
  all := .refl _
  lesser _ member := by cases member
  bounded := Nat.zero_le _
  full none := absurd rfl none
  dropped := rfl

/-- Where a diagnostic is added to a full bag, the lesser of it and the least severe item is lost. -/
theorem Keeps.lose (keeps : b.Keeps lost added) (roomless : b.limit ≤ b.items.length)
    (balance : (out :: items).Perm (d :: b.items))
    (least : ∀ c ∈ items, out.severity.rank ≤ c.severity.rank)
    (origin : ∀ c ∈ items, c ∈ b.items ∨ ∃ e ∈ b.items, e.severity.rank ≤ c.severity.rank) :
    Keeps { b with items := items, dropped := b.dropped + 1 } (out :: lost) (added ++ [d]) where
  all := by
    calc
      (items ++ out :: lost).Perm (out :: (items ++ lost)) := perm_middle
      List.Perm _ (d :: (b.items ++ lost)) := balance.append_right lost
      List.Perm _ (added ++ [d]) := (keeps.all.cons d).trans (perm_append_singleton d added).symm
  lesser c kept e gone := by
    rcases mem_cons.mp gone with rfl | gone
    · exact least c kept
    · rcases origin c kept with earlier | ⟨other, earlier, below⟩
      · exact keeps.lesser c earlier e gone
      · exact UInt8.le_trans (keeps.lesser other earlier e gone) below
  bounded := by
    have same : items.length + 1 = b.items.length + 1 := balance.length_eq
    exact Nat.add_right_cancel same ▸ keeps.bounded
  full _ := by
    have same : items.length + 1 = b.items.length + 1 := balance.length_eq
    exact (Nat.add_right_cancel same).trans (Nat.le_antisymm keeps.bounded roomless)
  dropped := congrArg (· + 1) keeps.dropped

theorem Keeps.add (keeps : b.Keeps lost added) (roomy : 0 < b.limit) (d : Diagnostic) :
    ∃ lost', (b.add d).1.Keeps lost' (added ++ [d]) := by
  rcases add_cases b d with ⟨room, equation⟩ | ⟨roomless, weaker, equation⟩ |
    ⟨roomless, strong, equation⟩
  · rw [equation]
    have none : lost = [] := by
      by_cases some : lost = []
      · exact some
      · exact absurd (keeps.full some) (Nat.ne_of_lt room)
    subst none
    refine ⟨[], ?_, ?_, ?_, fun some => absurd rfl some, keeps.dropped⟩
    · simpa only [append_nil] using keeps.all.append_right [d]
    · intro c kept e gone
      cases gone
    · simpa using Nat.succ_le_of_lt room
  · rw [equation]
    have nonempty := ne_nil_of_length_pos (Nat.lt_of_lt_of_le roomy roomless)
    obtain ⟨out, found, rank⟩ := rank_leastSevere nonempty
    have stronger : out.severity.rank ≤ d.severity.rank := rank ▸ UInt8.le_of_lt weaker
    refine ⟨out :: lost, keeps.lose roomless (cons_set_perm found d) ?_ ?_⟩
    · intro c kept
      rcases mem_or_eq_of_mem_set kept with earlier | rfl
      · exact rank ▸ leastRank_le earlier
      · exact stronger
    · intro c kept
      rcases mem_or_eq_of_mem_set kept with earlier | rfl
      · exact .inl earlier
      · exact .inr ⟨out, mem_of_getElem? found, stronger⟩
  · rw [equation]
    exact ⟨d :: lost, keeps.lose roomless (.refl _)
      (fun c kept => UInt8.le_trans strong (leastRank_le kept)) fun _ => .inl⟩

theorem Keeps.addAll (keeps : b.Keeps lost added) (roomy : 0 < b.limit) (ds : List Diagnostic) :
    ∃ lost', (b.addAll ds).Keeps lost' (added ++ ds) := by
  induction ds generalizing b lost added with
  | nil => exact ⟨lost, by simpa [Bag.addAll] using keeps⟩
  | cons d ds ih =>
    obtain ⟨lost', keeps'⟩ := keeps.add roomy d
    have result := ih keeps' (by rwa [limit_add])
    rwa [append_assoc] at result

theorem limit_addAll (b : Bag) (ds : List Diagnostic) : (b.addAll ds).limit = b.limit := by
  induction ds generalizing b with
  | nil => rfl
  | cons d ds ih => exact (ih (b.add d).1).trans (limit_add b d)

/-- The highest ranks of a list, at most `k` of them. -/
def highest (k : Nat) (ranks : List UInt8) : List UInt8 :=
  (ranks.mergeSort fun x y => y ≤ x).take k

theorem mergeSort_ranks (ranks : List UInt8) :
    (ranks.mergeSort fun x y => y ≤ x).Pairwise fun x y => y ≤ x := by
  have sorted := @pairwise_mergeSort _ (fun x y : UInt8 => decide (y ≤ x))
    (fun x y z first second => by
      simp only [decide_eq_true_eq] at *
      exact UInt8.le_trans second first)
    (fun x y => by simpa using UInt8.le_total y x) ranks
  exact sorted.imp of_decide_eq_true

theorem highest_of_perm {high low ranks : List UInt8} {k : Nat} (all : (high ++ low).Perm ranks)
    (lesser : ∀ x ∈ high, ∀ y ∈ low, y ≤ x) (length : high.length ≤ k)
    (full : low ≠ [] → high.length = k) : high.Perm (highest k ranks) := by
  have high_perm := mergeSort_perm high fun x y => decide (y ≤ x)
  have low_perm := mergeSort_perm low fun x y => decide (y ≤ x)
  -- Sorting the two parts apart sorts the whole, for one is above the other.
  have whole : (ranks.mergeSort fun x y => y ≤ x) =
      (high.mergeSort fun x y => y ≤ x) ++ (low.mergeSort fun x y => y ≤ x) := by
    refine List.Perm.eq_of_pairwise (fun x y _ _ first second => UInt8.le_antisymm second first)
      (mergeSort_ranks ranks) ?_ ?_
    · refine pairwise_append.mpr ⟨mergeSort_ranks high, mergeSort_ranks low, ?_⟩
      intro x inHigh y inLow
      exact lesser x (high_perm.mem_iff.mp inHigh) y (low_perm.mem_iff.mp inLow)
    · exact (mergeSort_perm ..).trans (all.symm.trans (high_perm.append low_perm).symm)
  rw [highest, whole]
  cases low with
  | nil =>
    rw [mergeSort_nil, append_nil, take_of_length_le (by simpa using length)]
    exact high_perm.symm
  | cons y low =>
    rw [take_left' (by simpa using full (cons_ne_nil _ _))]
    exact high_perm.symm

theorem Keeps.severest (keeps : b.Keeps lost added) :
    (b.items.map fun d => d.severity.rank).Perm
      (highest b.limit (added.map fun d => d.severity.rank)) := by
  apply @highest_of_perm _ (lost.map fun d => d.severity.rank)
  · rw [← map_append]
    exact keeps.all.map _
  · intro x inKept y inLost
    obtain ⟨c, kept, rfl⟩ := mem_map.mp inKept
    obtain ⟨d, gone, rfl⟩ := mem_map.mp inLost
    exact keeps.lesser c kept d gone
  · simpa using keeps.bounded
  · simpa using keeps.full

theorem Keeps.length (keeps : b.Keeps lost added) :
    b.items.length = min added.length b.limit ∧ b.dropped = added.length - b.items.length := by
  have total := keeps.all.length_eq
  have bounded := keeps.bounded
  rw [length_append] at total
  rw [keeps.dropped]
  cases lost with
  | nil => simp only [length_nil] at *; omega
  | cons d lost =>
    have full := keeps.full (cons_ne_nil _ _)
    simp only [length_cons] at *
    omega

theorem hasErrors_addAll (limit : Int) (ds : List Diagnostic) :
    ((empty limit).addAll ds).hasErrors ↔ ∃ d ∈ ds, d.Severe := by
  obtain ⟨lost, keeps⟩ := (Keeps.empty limit).addAll (limit_empty_pos limit) ds
  rw [nil_append] at keeps
  rw [hasErrors_iff]
  constructor
  · rintro ⟨d, kept, severe⟩
    exact ⟨d, keeps.all.mem_iff.mp (mem_append_left lost kept), severe⟩
  · rintro ⟨d, member, severe⟩
    rcases mem_append.mp (keeps.all.mem_iff.mpr member) with kept | gone
    · exact ⟨d, kept, severe⟩
    · -- What is left in the full bag is at least as severe.
      have full := keeps.full (ne_nil_of_mem gone)
      rw [limit_addAll] at full
      obtain ⟨c, kept⟩ := exists_mem_of_length_pos (full ▸ limit_empty_pos limit)
      exact ⟨c, kept, severe.of_rank_le (keeps.lesser c kept d gone)⟩

/-- An equal diagnostic may be in the bag already, so the new one is in it if one more is. -/
theorem add_answer (roomy : 0 < b.limit) (d : Diagnostic) :
    (b.add d).2 ↔ (b.add d).1.items.count d = b.items.count d + 1 := by
  rcases add_cases b d with ⟨-, equation⟩ | ⟨roomless, weaker, equation⟩ | ⟨-, -, equation⟩
  · simp [equation]
  · have nonempty := ne_nil_of_length_pos (Nat.lt_of_lt_of_le roomy roomless)
    obtain ⟨out, found, rank⟩ := rank_leastSevere nonempty
    have other : out ≠ d := by
      rintro rfl
      exact UInt8.lt_irrefl _ (rank ▸ weaker)
    have balance := (cons_set_perm found d).count_eq d
    rw [count_cons_of_ne other, count_cons_self] at balance
    simp [equation, balance]
  · simp [equation]

end Bag

/-- After any additions to a new bag it holds the highest severities of all, and the next addition
is answered by whether it is in the bag then. -/
theorem bag_keeps_severest (limit : Int) (added : List Diagnostic) :
    let capacity := if limit ≤ 0 then 100 else limit.toNat
    let b := (Bag.empty limit).addAll added
    b.items.length = min added.length capacity ∧
    b.dropped = added.length - min added.length capacity ∧
    (b.items.map fun d => d.severity.rank).Perm
      (Bag.highest capacity (added.map fun d => d.severity.rank)) ∧
    (∃ lost, (b.items ++ lost).Perm added ∧
      ∀ c ∈ b.items, ∀ d ∈ lost, d.severity.rank ≤ c.severity.rank) ∧
    (b.hasErrors ↔ ∃ d ∈ added, d.Severe) ∧
    ∀ d, (b.add d).2 ↔ (b.add d).1.items.count d = b.items.count d + 1 := by
  intro capacity b
  have roomy := Bag.limit_empty_pos limit
  have limited : b.limit = capacity := Bag.limit_addAll _ added
  obtain ⟨lost, keeps⟩ := (Bag.Keeps.empty limit).addAll roomy added
  rw [List.nil_append] at keeps
  obtain ⟨length, dropped⟩ := keeps.length
  rw [length] at dropped
  refine ⟨limited ▸ length, limited ▸ dropped, limited ▸ keeps.severest,
    ⟨lost, keeps.all, keeps.lesser⟩, Bag.hasErrors_addAll limit added, Bag.add_answer ?_⟩
  rw [limited]
  exact roomy

end MiddleEnd.Diagnostic
