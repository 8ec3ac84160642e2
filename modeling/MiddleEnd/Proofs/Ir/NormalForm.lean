import MiddleEnd.Proofs.Ir.Compaction

/-!
What simplification leaves of the empty blocks that only jump. Two runs are enough, and one is not
where a jump strays into a loop of them.
-/

namespace MiddleEnd.Ir

open List Option Terminator

theorem Block.trivialTarget?_mapTargets (b : Block) (id : BlockId) (change : BlockId → BlockId) :
    Block.trivialTarget? { b with id := id, term := b.term.mapTargets change } =
      b.trivialTarget?.map change := by
  obtain ⟨_, instrs, term⟩ := b
  cases instrs <;> cases term <;> rfl

theorem Terminator.mapTargets_eq_self {term : Terminator} {change : BlockId → BlockId}
    (same : ∀ target ∈ term.successors, change target = target) :
    term.mapTargets change = term := by
  cases term with
  | goto target => exact congrArg goto (same target mem_cons_self)
  | branch cond yes no =>
    have atYes : change yes = yes := same yes (by simp [successors])
    have atNo : change no = no := same no (by simp [successors])
    rw [mapTargets, atYes, atNo]
  | _ => rfl

namespace Func

variable {f g h : Func} {id next entered : BlockId} {positions : List Nat}
  {number : BlockId → BlockId}

/-- Every empty block that only jumps, jumps to itself. -/
def Normal (f : Func) : Prop :=
  ∀ b ∈ f.blocks, ∀ target, b.instrs = [] → b.term = .goto target → target = b.id

/-- Every empty block that only jumps, jumps to one that jumps to itself. -/
def Collapsed (f : Func) : Prop :=
  ∀ id next, f.skip? id = some next → f.skip? next = some next

/-- The entry, or the target of a jump in a block that is kept. -/
def JumpedTo (f : Func) (id : BlockId) : Prop :=
  id = f.entry ∨
    ∃ source b, f.redirected.InReach source ∧ f.block? source = some b ∧ id ∈ b.term.successors

/-- The block lies below a whole loop that its chain enters above the lowest block of the loop. -/
structure Strays (f : Func) (id entered : BlockId) : Prop where
  enters : Enters f.skip? id entered
  notLowest : ¬ f.Lowest entered
  below : ∀ other, f.Skips entered other → id < other

theorem Numbered.normal_iff (numbered : f.Numbered) :
    f.Normal ↔ ∀ id next, f.skip? id = some next → next = id := by
  constructor
  · intro normal id next skips
    obtain ⟨b, found, empty, jumps⟩ := skip?_eq_some skips
    obtain ⟨i, rfl, position⟩ := at?_eq_some found
    rw [normal b (mem_of_getElem? position) next empty jumps, numbered i b position]
  · intro same b member target empty jumps
    obtain ⟨i, position⟩ := List.getElem?_of_mem member
    rw [numbered i b position]
    apply same
    simp [skip?, block?, position, Block.trivialTarget?, empty, jumps]

theorem skip?_redirected (f : Func) (id : BlockId) :
    f.redirected.skip? id = (f.skip? id).map f.redirects.apply := by
  rw [skip?, skip?, block?_redirected]
  cases f.block? id with
  | none => rfl
  | some b => exact b.trivialTarget?_mapTargets b.id _

theorem inReach_redirected :
    f.redirected.InReach id ↔ ∃ target, f.JumpedTo target ∧ f.redirects.apply target = id := by
  constructor
  · intro reach
    cases reach with
    | refl => exact ⟨f.entry, .inl rfl, rfl⟩
    | @tail source _ before step =>
      obtain ⟨b', found', isTarget⟩ := step
      rw [block?_redirected] at found'
      obtain ⟨b, found, rfl⟩ := map_eq_some_iff.mp found'
      rw [successors_mapTargets] at isTarget
      obtain ⟨target, isTarget, same⟩ := mem_map.mp isTarget
      exact ⟨target, .inr ⟨source, b, before, found, isTarget⟩, same⟩
  · rintro ⟨target, rfl | ⟨source, b, reach, found, isTarget⟩, rfl⟩
    · exact .refl
    · apply reach.tail
      refine ⟨_, by rw [block?_redirected, found]; rfl, ?_⟩
      rw [successors_mapTargets]
      exact mem_map_of_mem isTarget

namespace Numbered

variable (numbered : f.Numbered)

include numbered

theorem lands_lowest (loops : Loops f.skip? id) (skips : f.skip? id = some next) :
    f.Lowest (f.redirects.apply next) ∧ f.Skips id (f.redirects.apply next) := by
  have onward := loops.onward (.single skips)
  obtain ⟨after, goesOn⟩ := onward.goesOn
  have settles := numbered.settles (isSome_of_eq_some goesOn)
  exact ⟨settles.of_loops onward, .head skips settles.skips⟩

theorem skip?_lowest (lowest : f.Lowest id) : f.redirected.skip? id = some id := by
  obtain ⟨next, skips⟩ := lowest.loops.goesOn
  obtain ⟨lowest', onward⟩ := numbered.lands_lowest lowest.loops skips
  rw [skip?_redirected, skips, map_some, ← lowest.unique lowest' onward]

theorem apply_of_strays (strays : f.Strays id entered) : f.redirects.apply id = entered := by
  have skips : (f.skip? id).isSome := by
    cases strays.enters with
    | here loops =>
      obtain ⟨next, skips⟩ := loops.goesOn
      exact isSome_of_eq_some skips
    | there outside skips => exact isSome_of_eq_some skips
  cases numbered.settles skips with
  | leaves onward out =>
    exact absurd out (strays.enters.loops.never_out strays.enters.leads onward)
  | lowest onward lowest above =>
    exfalso
    rcases Leads.total strays.enters.leads onward with ahead | behind
    · exact Int.not_lt.mpr above (strays.below _ ahead)
    · exact Int.not_lt.mpr above (strays.below _ (lowest.loops.back behind))
  | enters enters below => exact enters.unique strays.enters

theorem lowest_or_strays (reach : f.redirected.InReach id) (skips : f.skip? id = some next) :
    f.Lowest id ∨ Loops f.skip? id ∧ ∃ target, f.JumpedTo target ∧ f.Strays target id := by
  obtain ⟨target, jumpedTo, rfl⟩ := inReach_redirected.mp reach
  cases goesOn : f.skip? target with
  | none =>
    rw [numbered.apply_of_none goesOn, goesOn] at skips
    cases skips
  | some _ =>
    cases numbered.settles (isSome_of_eq_some goesOn) with
    | leaves onward out => cases out.symm.trans skips
    | lowest onward lowest above => exact .inl lowest
    | enters enters below =>
      by_cases lowest : f.Lowest (f.redirects.apply target)
      · exact .inl lowest
      · exact .inr ⟨enters.loops, target, jumpedTo, enters, lowest, below⟩

theorem loops_of_inReach (reach : f.redirected.InReach id) (skips : f.skip? id = some next) :
    Loops f.skip? id := by
  rcases numbered.lowest_or_strays reach skips with lowest | ⟨loops, -⟩
  · exact lowest.loops
  · exact loops

end Numbered

theorem Numbered.redirected_normal_iff (numbered : f.Numbered) :
    (∀ id next, f.redirected.InReach id → f.redirected.skip? id = some next → next = id) ↔
      ∀ target entered, f.JumpedTo target → ¬ f.Strays target entered := by
  constructor
  · intro normal target entered jumpedTo strays
    have reach : f.redirected.InReach entered :=
      inReach_redirected.mpr ⟨target, jumpedTo, numbered.apply_of_strays strays⟩
    obtain ⟨next, skips⟩ := strays.enters.loops.goesOn
    have same : f.redirects.apply next = entered := by
      apply normal entered _ reach
      rw [skip?_redirected, skips, map_some]
    apply strays.notLowest
    rw [← same]
    exact (numbered.lands_lowest strays.enters.loops skips).1
  · intro noStrays id next reach skips
    rw [skip?_redirected] at skips
    obtain ⟨next, skips', rfl⟩ := map_eq_some_iff.mp skips
    rcases numbered.lowest_or_strays reach skips' with lowest | ⟨-, target, jumpedTo, strays⟩
    · obtain ⟨lowest', onward⟩ := numbered.lands_lowest lowest.loops skips'
      exact (lowest.unique lowest' onward).symm
    · exact absurd strays (noStrays target id jumpedTo)

namespace Compacts

variable (compacts : g.Compacts h positions number)

include compacts

theorem number_inj (member : i ∈ positions) (member' : j ∈ positions) (same : number i = number j) :
    i = j := by
  obtain ⟨k, position⟩ := List.getElem?_of_mem member
  obtain ⟨k', position'⟩ := List.getElem?_of_mem member'
  rw [compacts.numbers k i position, compacts.numbers k' j position', Int.ofNat_inj] at same
  rw [same] at position
  exact Option.some.inj (position.symm.trans position')

theorem skip? (member : i ∈ positions) : h.skip? (number i) = (g.skip? i).map number := by
  obtain ⟨b, found, found'⟩ := compacts.block? member
  rw [Func.skip?, Func.skip?, found, found']
  exact b.trivialTarget?_mapTargets (number i) number

theorem skip?_origin (skips : h.skip? id' = some next') :
    ∃ i ∈ positions, ∃ next, id' = number i ∧ next' = number next ∧ g.skip? i = some next := by
  obtain ⟨b', found, -⟩ := skip?_eq_some skips
  obtain ⟨k, rfl, position⟩ := at?_eq_some found
  obtain ⟨i, b, origin, -, -⟩ := compacts.origin position
  have member := mem_of_getElem? origin
  rw [← compacts.numbers k i origin, compacts.skip? member] at skips
  obtain ⟨next, skips', rfl⟩ := map_eq_some_iff.mp skips
  exact ⟨i, member, next, (compacts.numbers k i origin).symm, rfl, skips'⟩

end Compacts

theorem inReach_skip? (reach : f.InReach id) (skips : f.skip? id = some next) :
    f.InReach next := by
  obtain ⟨b, found, -, jumps⟩ := skip?_eq_some skips
  exact reach.tail ⟨b, found, by simp [jumps, successors]⟩

theorem Linked.simplify_normal_iff_redirected (linked : f.Linked) :
    f.simplify.Normal ↔
      ∀ id next, f.redirected.InReach id → f.redirected.skip? id = some next → next = id := by
  obtain ⟨positions, number, compacts, complete⟩ := linked.simplify_compacts
  rw [linked.simplify.numbered.normal_iff]
  constructor
  · intro normal id next reach skips
    obtain ⟨i, member, rfl⟩ := (complete id).mp reach
    obtain ⟨j, member', rfl⟩ := (complete next).mp (inReach_skip? reach skips)
    have same : number j = number i := by
      apply normal
      rw [compacts.skip? member, skips, map_some]
    rw [compacts.number_inj member' member same]
  · intro normal id' next' skips'
    obtain ⟨i, member, next, rfl, rfl, skips⟩ := compacts.skip?_origin skips'
    rw [normal i next ((complete i).mpr ⟨i, member, rfl⟩) skips]

theorem Linked.simplify_collapsed (linked : f.Linked) : f.simplify.Collapsed := by
  intro id' next' skips'
  obtain ⟨positions, number, compacts, complete⟩ := linked.simplify_compacts
  obtain ⟨i, member, next, rfl, rfl, skips⟩ := compacts.skip?_origin skips'
  have reach : f.redirected.InReach i := (complete i).mpr ⟨i, member, rfl⟩
  obtain ⟨j, member', rfl⟩ := (complete next).mp (inReach_skip? reach skips)
  rw [skip?_redirected] at skips
  obtain ⟨next, skips, same⟩ := map_eq_some_iff.mp skips
  have loops := linked.numbered.loops_of_inReach reach skips
  have lowest := (linked.numbered.lands_lowest loops skips).1
  rw [same] at lowest
  rw [compacts.skip? member', linked.numbered.skip?_lowest lowest, map_some]

theorem Collapsed.not_strays (collapsed : f.Collapsed) : ¬ f.Strays id entered := by
  intro strays
  have loops : Loops f.skip? entered := strays.enters.loops
  obtain ⟨next, skips⟩ := loops.goesOn
  have stays := collapsed entered next skips
  have same : entered = next := Leads.eq_of_self (loops.back (.single skips)) stays
  apply strays.notLowest
  refine ⟨loops, fun other onward => ?_⟩
  rw [← same] at stays
  rw [Leads.eq_of_self onward stays]

theorem Linked.simplify_normal_iff (linked : f.Linked) :
    f.simplify.Normal ↔ ∀ target entered, f.JumpedTo target → ¬ f.Strays target entered :=
  linked.simplify_normal_iff_redirected.trans linked.numbered.redirected_normal_iff

theorem Linked.keepBlocks_eq_self (linked : g.Linked) {kept : List BlockId}
    (all : ∀ k : Nat, k < g.blocks.length → (k : BlockId) ∈ kept) : g.keepBlocks kept = g := by
  have compacts := g.keepBlocks_compacts kept
  have positions : g.keptPositions kept = List.range g.blocks.length := by
    apply filter_eq_self.mpr
    intro k member
    exact contains_iff_mem.mpr (all k (mem_range.mp member))
  rw [positions] at compacts
  have same : ∀ id, (g.block? id).isSome → renumber (List.range g.blocks.length) id = id := by
    intro id exist
    obtain ⟨b, found⟩ := isSome_iff_exists.mp exist
    obtain ⟨i, rfl, position⟩ := at?_eq_some found
    have bound := (List.getElem?_eq_some_iff.mp position).1
    exact compacts.numbers i i (List.getElem?_range bound)
  have blocks : (g.keepBlocks kept).blocks = g.blocks := by
    apply ext_getElem?
    intro k
    by_cases bound : k < g.blocks.length
    · obtain ⟨b, found, found'⟩ := compacts.blocks k k (List.getElem?_range bound)
      have term : b.term.mapTargets (renumber (List.range g.blocks.length)) = b.term := by
        apply mapTargets_eq_self
        exact fun target isTarget =>
          same target (linked.targets.targets b (mem_of_getElem? found) target isTarget)
      rw [found', found, term, ← linked.numbered k b found]
    · rw [Nat.not_lt] at bound
      rw [List.getElem?_eq_none bound, List.getElem?_eq_none]
      rw [compacts.length, length_range]
      exact bound
  rw [compacts.rest, blocks, compacts.entry, same _ linked.targets.entry]

theorem Linked.simplify_eq_self (linked : h.Linked)
    (all : ∀ k : Nat, k < h.blocks.length → h.InReach k) (normal : h.Normal) :
    h.simplify = h := by
  have stays : ∀ id, h.redirects.apply id = id := by
    intro id
    cases skips : h.skip? id with
    | none => exact linked.numbered.apply_of_none skips
    | some next =>
      rw [linked.numbered.normal_iff.mp normal id next skips] at skips
      exact Leads.eq_of_self (linked.numbered.redirects_skip id) skips
  have redirected : h.redirected = h := by
    have blocks : h.redirected.blocks = h.blocks := by
      apply map_id''
      intro b
      rw [mapTargets_eq_self fun target _ => stays target]
    have entry : h.redirected.entry = h.entry := stays h.entry
    exact congrArg₂ (fun blocks entry => { h with blocks := blocks, entry := entry }) blocks entry
  rw [simplify_eq, redirected]
  apply linked.keepBlocks_eq_self
  exact fun k bound => linked.targets.mem_reachable.mpr (all k bound)

theorem Linked.normal_of_simplify_eq (linked : h.Linked) (same : h.simplify = h) : h.Normal := by
  have all : ∀ k : Nat, k < h.redirected.blocks.length →
      (k : BlockId) ∈ h.redirected.reachable := by
    have length := (h.redirected.keepBlocks_compacts h.redirected.reachable).length
    rw [← simplify_eq, same] at length
    have kept : (h.redirected.keptPositions h.redirected.reachable).length =
        (List.range h.redirected.blocks.length).length := by
      rw [← length, length_range, Func.redirected, mapTargets, length_map]
    intro k bound
    exact contains_iff_mem.mp
      (length_filter_eq_length_iff.mp kept k (mem_range.mpr bound))
  have redirected : h.redirected = h := by
    rw [simplify_eq, linked.redirected.keepBlocks_eq_self all] at same
    exact same
  apply linked.numbered.normal_iff.mpr
  intro id next skips
  obtain ⟨b, found, -⟩ := skip?_eq_some skips
  obtain ⟨i, rfl, position⟩ := at?_eq_some found
  have reach : h.redirected.InReach i := by
    apply linked.redirected.targets.mem_reachable.mp
    apply all
    rw [redirected]
    exact (List.getElem?_eq_some_iff.mp position).1
  have loops := linked.numbered.loops_of_inReach reach skips
  have lands : h.redirects.apply next = next := by
    have skips' := h.skip?_redirected i
    rw [redirected, skips] at skips'
    exact (Option.some.inj skips').symm
  have lowest := (linked.numbered.lands_lowest loops skips).1
  rw [lands] at lowest
  have stays := linked.numbered.skip?_lowest lowest
  rw [redirected] at stays
  exact (Leads.eq_of_self (loops.back (.single skips)) stays).symm

end Func

/-- After simplification every empty block that only jumps, jumps to itself, unless a jump strays;
exactly then another run changes something. The second run always gets there. -/
theorem simplify_normal_unless_strays {f : Func} (valid : f.faults = []) :
    (f.simplify.Normal ↔ ∀ target entered, f.JumpedTo target → ¬ f.Strays target entered) ∧
    (f.simplify.simplify = f.simplify ↔ f.simplify.Normal) ∧
    f.simplify.Collapsed ∧
    f.simplify.simplify.Normal ∧ f.simplify.simplify.simplify = f.simplify.simplify := by
  have linked := (f.faults_eq_nil_iff.mp valid).linked
  have collapsed := linked.simplify_collapsed
  have settled : f.simplify.simplify.Normal :=
    linked.simplify.simplify_normal_iff.mpr fun _ _ _ => collapsed.not_strays
  refine ⟨linked.simplify_normal_iff, ⟨?_, ?_⟩, collapsed, settled, ?_⟩
  · exact linked.simplify.normal_of_simplify_eq
  · exact linked.simplify.simplify_eq_self linked.inReach_simplify
  · exact linked.simplify.simplify.simplify_eq_self linked.simplify.inReach_simplify settled

theorem spinOrReturn_simplify_normal :
    spinOrReturn.faults = [] ∧ spinOrReturn.simplify.Normal ∧
    spinOrReturn.simplify.simplify = spinOrReturn.simplify ∧
    ∀ target entered, spinOrReturn.JumpedTo target → ¬ spinOrReturn.Strays target entered := by
  have valid : spinOrReturn.faults = [] := by decide
  have normal : spinOrReturn.simplify.Normal := by
    intro b member target empty jumps
    rw [spinOrReturn_simplify_blocks] at member
    rcases member with _ | ⟨_, _ | ⟨_, _ | ⟨_, _ | _⟩⟩⟩
    · cases jumps
    · exact (goto.inj jumps).symm
    · cases empty
  obtain ⟨noStrays, unchanged, -⟩ := simplify_normal_unless_strays valid
  exact ⟨valid, normal, unchanged.mpr normal, noStrays.mp normal⟩

/-- The entry lies below a loop that it enters at its higher block. -/
def entersAbove : Func where
  id := 0
  name := Text.ofString "spin"
  result := .void
  params := []
  locals := []
  values := []
  blocks := [⟨0, [], .goto 2⟩, ⟨1, [], .goto 2⟩, ⟨2, [], .goto 1⟩]
  entry := 0

theorem entersAbove_simplify_not_normal :
    entersAbove.faults = [] ∧
    entersAbove.simplify.blocks = [⟨0, [], .goto 0⟩, ⟨1, [], .goto 0⟩] ∧
    ¬ entersAbove.simplify.Normal ∧
    entersAbove.simplify.simplify ≠ entersAbove.simplify := by
  have blocks : entersAbove.simplify.blocks = [⟨0, [], .goto 0⟩, ⟨1, [], .goto 0⟩] := by decide
  refine ⟨by decide, blocks, fun normal => ?_, by decide⟩
  have same : (0 : BlockId) = 1 := normal ⟨1, [], .goto 0⟩ (by simp [blocks]) 0 rfl rfl
  cases same

end MiddleEnd.Ir
