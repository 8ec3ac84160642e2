import MiddleEnd.Proofs.Ir.Redirection
import Mathlib.Data.List.Perm.Subperm
import Mathlib.Order.WellFounded

/-!
Where chains of empty blocks go: to where they leave the empty blocks, or into a loop of them.
-/

namespace MiddleEnd.Ir

open List Option

variable {low : BlockId}

section Paths

variable {next next' : BlockId → Option BlockId} {start id id' last : BlockId}
  {visited front behind : List BlockId}

abbrev Leads (next : BlockId → Option BlockId) : BlockId → BlockId → Prop :=
  Relation.ReflTransGen fun id id' => next id = some id'

def Loops (next : BlockId → Option BlockId) (id : BlockId) : Prop :=
  Relation.TransGen (fun id id' => next id = some id') id id

/-- The first block of a loop on the way. -/
inductive Enters (next : BlockId → Option BlockId) : BlockId → BlockId → Prop where
  | here {id : BlockId} (loops : Loops next id) : Enters next id id
  | there {id id' last : BlockId} (outside : ¬ Loops next id) (step : next id = some id')
      (rest : Enters next id' last) : Enters next id last

theorem Loops.back (loops : Loops next id) (leads : Leads next id id') : Leads next id' id := by
  induction leads with
  | refl => exact .refl
  | @tail middle id' before step ih =>
    have goesOn : ∃ after, next middle = some after ∧ Leads next after id := by
      rcases Relation.ReflTransGen.cases_head ih with rfl | goesOn
      · exact Relation.TransGen.head'_iff.mp loops
      · exact goesOn
    obtain ⟨after, step', rest⟩ := goesOn
    cases step.symm.trans step'
    exact rest

theorem Loops.onward (loops : Loops next id) (leads : Leads next id id') : Loops next id' :=
  .trans_right (loops.back leads) (loops.trans_left leads)

theorem Loops.goesOn (loops : Loops next id) : ∃ id', next id = some id' := by
  obtain ⟨id', step, -⟩ := Relation.TransGen.head'_iff.mp loops
  exact ⟨id', step⟩

theorem Leads.eq_of_none (leads : Leads next id id') (stops : next id = none) : id' = id := by
  rcases Relation.ReflTransGen.cases_head leads with same | ⟨_, step, -⟩
  · exact same.symm
  · cases stops.symm.trans step

theorem Leads.eq_of_self (leads : Leads next id id') (stays : next id = some id) : id' = id := by
  induction leads with
  | refl => rfl
  | tail before step ih =>
    rw [ih, stays] at step
    exact (Option.some.inj step).symm

theorem Leads.total (leads : Leads next id last) (leads' : Leads next id last') :
    Leads next last last' ∨ Leads next last' last :=
  Relation.ReflTransGen.total_of_right_unique
    (fun _ _ _ step step' => Option.some.inj (step.symm.trans step')) leads leads'

theorem Loops.never_out (loops : Loops next last) (leads : Leads next id last)
    (leads' : Leads next id out) : next out ≠ none := by
  intro stops
  have onLoop : Loops next out := by
    rcases Leads.total leads leads' with ahead | behind
    · exact loops.onward ahead
    · rwa [Leads.eq_of_none behind stops] at loops
  obtain ⟨_, step⟩ := onLoop.goesOn
  cases stops.symm.trans step

theorem Enters.loops (enters : Enters next id last) : Loops next last := by
  induction enters with
  | here loops => exact loops
  | there outside step rest ih => exact ih

theorem Enters.leads (enters : Enters next id last) : Leads next id last := by
  induction enters with
  | here loops => exact .refl
  | there outside step rest ih => exact .head step ih

theorem Enters.eq_of_loops (enters : Enters next id last) (loops : Loops next id) : last = id := by
  cases enters with
  | here => rfl
  | there outside => exact absurd loops outside

theorem Enters.unique (enters : Enters next id last) (enters' : Enters next id last') :
    last = last' := by
  induction enters with
  | here loops => exact (enters'.eq_of_loops loops).symm
  | there outside step rest ih =>
    cases enters' with
    | here loops => exact absurd loops outside
    | there _ step' rest' =>
      cases step.symm.trans step'
      exact ih rest'

/-- The blocks gone over from `start` to before `id`, latest first, all different. -/
inductive Trail (next : BlockId → Option BlockId) (start : BlockId) :
    List BlockId → BlockId → Prop where
  | nil : Trail next start [] start
  | cons {visited : List BlockId} {id id' : BlockId} (before : Trail next start visited id)
      (new : id ∉ visited) (step : next id = some id') : Trail next start (id :: visited) id'

theorem Trail.leads (trail : Trail next start visited id) : Leads next start id := by
  induction trail with
  | nil => exact .refl
  | cons before new step ih => exact ih.tail step

theorem Trail.nodup (trail : Trail next start visited id) : visited.Nodup := by
  induction trail with
  | nil => exact nodup_nil
  | cons before new step ih => exact nodup_cons.mpr ⟨new, ih⟩

theorem Trail.onward (trail : Trail next start visited id) (member : earlier ∈ visited) :
    Relation.TransGen (fun id id' => next id = some id') earlier id := by
  induction trail with
  | nil => cases member
  | cons before new step ih =>
    rcases mem_cons.mp member with rfl | member
    · exact .single step
    · exact (ih member).tail step

theorem Trail.split (trail : Trail next start (front ++ id :: behind) last) :
    Trail next start behind id ∧
      ∀ a ∈ id :: front, ∀ b, next a = some b → b ∈ front ∨ b = last := by
  induction front generalizing last with
  | nil =>
    cases trail with
    | cons before new step =>
      refine ⟨before, fun a member b step' => .inr ?_⟩
      rw [mem_singleton.mp member, step] at step'
      exact (Option.some.inj step').symm
  | cons head front ih =>
    cases trail with
    | cons before new step =>
      obtain ⟨part, closed⟩ := ih before
      refine ⟨part, fun a member b step' => ?_⟩
      by_cases latest : a = head
      · rw [latest, step] at step'
        exact .inr (Option.some.inj step').symm
      · have earlier : a ∈ id :: front := by grind
        rcases closed a earlier b step' with inFront | rfl
        · exact .inl (mem_cons_of_mem _ inFront)
        · exact .inl mem_cons_self

theorem Trail.enters (trail : Trail next start visited id) (rest : Enters next id last)
    (outside : ∀ a ∈ visited, ¬ Loops next a) : Enters next start last := by
  induction trail with
  | nil => exact rest
  | cons before new step ih =>
    apply ih (.there (outside _ mem_cons_self) step rest)
    exact fun a member => outside a (mem_cons_of_mem _ member)

theorem Trail.enters_of_mem (trail : Trail next start visited id) (again : id ∈ visited) :
    Enters next start id := by
  obtain ⟨front, behind, rfl⟩ := append_of_mem again
  obtain ⟨part, closed⟩ := trail.split
  have inside : ∀ b, Leads next id b → b ∈ id :: front := by
    intro b leads
    induction leads with
    | refl => exact mem_cons_self
    | tail before step ih => exact mem_cons.mpr (closed _ ih _ step).symm
  apply part.enters (.here (trail.onward again))
  intro a member loops
  have inFront := inside a (loops.back (part.onward member).to_reflTransGen)
  have nodup := trail.nodup
  grind

theorem Leads.congr (leads : Leads next id id')
    (same : ∀ a, Leads next id a → next' a = next a) : Leads next' id id' := by
  induction leads with
  | refl => exact .refl
  | tail before step ih => exact ih.tail ((same _ before).trans step)

theorem Loops.congr (loops : Loops next id) (same : ∀ a, Leads next id a → next' a = next a) :
    Loops next' id := by
  obtain ⟨last, leads, step⟩ := Relation.TransGen.tail'_iff.mp loops
  exact .tail' (Leads.congr leads same) ((same last leads).trans step)

end Paths

namespace Func

variable {f : Func} {redirects : Redirects} {id target : BlockId} {k : Nat}

def follow (f : Func) (redirects : Redirects) (id : BlockId) : Option BlockId :=
  (redirects.lookup id).or (f.skip? id)

theorem chase_succ (fuel : Nat) (visited : List BlockId) :
    f.chase redirects (fuel + 1) visited id =
      if id ∈ visited then id
      else ((f.follow redirects id).map (f.chase redirects fuel (id :: visited))).getD id := by
  have skips : (f.block? id).bind Block.trivialTarget? = f.skip? id := rfl
  rw [chase, follow, skips]
  by_cases again : id ∈ visited
  · simp [again]
  · cases redirects.lookup id with
    | some next => simp [again]
    | none => cases f.skip? id <;> simp [again]

/-- The chase, `none` where it does not end within so many rounds. -/
def chaseWithin (f : Func) (redirects : Redirects) :
    (rounds : Nat) → (visited : List BlockId) → BlockId → Option BlockId
  | 0, _, _ => none
  | rounds + 1, visited, id =>
    if id ∈ visited then some id
    else
      match f.follow redirects id with
      | some next => f.chaseWithin redirects rounds (id :: visited) next
      | none => some id

def redirectsWithin (f : Func) (rounds : Nat) : Redirects → List Block → Option Redirects
  | redirects, [] => some redirects
  | redirects, b :: rest =>
    match b.trivialTarget? with
    | none => f.redirectsWithin rounds redirects rest
    | some target =>
      (f.chaseWithin redirects rounds [b.id] target).bind fun last =>
        f.redirectsWithin rounds ((b.id, last) :: redirects) rest

theorem skip?_isSome (skips : (f.skip? id).isSome) : (f.block? id).isSome := by
  obtain ⟨next, skips⟩ := isSome_iff_exists.mp skips
  obtain ⟨b, found, -⟩ := skip?_eq_some skips
  exact isSome_of_eq_some found

theorem length_le_of_exist {ids : List BlockId} (nodup : ids.Nodup)
    (exist : ∀ id ∈ ids, (f.block? id).isSome) : ids.length ≤ f.blocks.length := by
  have subset : ids ⊆ (List.range f.blocks.length).map Int.ofNat := by
    intro id member
    obtain ⟨nonneg, bound⟩ := at?_isSome_iff.mp (exist id member)
    exact mem_map.mpr ⟨id.toNat, mem_range.mpr (by omega), Int.toNat_of_nonneg nonneg⟩
  simpa using (nodup.subperm subset).length_le

section Chase

variable (exist : ∀ id, (f.follow redirects id).isSome → (f.block? id).isSome)

include exist

theorem length_trail_le (trail : Trail (f.follow redirects) start visited id) :
    visited.length ≤ f.blocks.length :=
  length_le_of_exist trail.nodup fun id' member => exist id' (by
    obtain ⟨_, step, -⟩ := Relation.TransGen.head'_iff.mp (trail.onward member)
    exact isSome_of_eq_some step)

-- Every round visits another block, so that neither count runs out.
theorem chaseWithin_eq_chase (trail : Trail (f.follow redirects) start visited id)
    (enough : f.blocks.length < rounds + visited.length)
    (enough' : f.blocks.length < fuel + visited.length) :
    f.chaseWithin redirects rounds visited id = some (f.chase redirects fuel visited id) := by
  have bound := length_trail_le exist trail
  induction rounds generalizing id visited fuel with
  | zero => omega
  | succ rounds ih =>
    obtain ⟨fuel, rfl⟩ : ∃ less, fuel = less + 1 := ⟨fuel - 1, by omega⟩
    rw [chase_succ, chaseWithin]
    split
    · rfl
    · next new =>
      cases step : f.follow redirects id with
      | none => rfl
      | some next =>
        have trail' := trail.cons new step
        apply ih trail' _ _ (length_trail_le exist trail') <;> rw [length_cons] <;> omega

theorem chase_spec (trail : Trail (f.follow redirects) start visited id)
    (enough : f.blocks.length < fuel + visited.length) :
    Leads (f.follow redirects) start (f.chase redirects fuel visited id) ∧
      (f.follow redirects (f.chase redirects fuel visited id) = none ∨
        Enters (f.follow redirects) start (f.chase redirects fuel visited id)) := by
  induction fuel generalizing id visited with
  | zero =>
    have bound := length_trail_le exist trail
    omega
  | succ fuel ih =>
    rw [chase_succ]
    split
    · next again => exact ⟨trail.leads, .inr (trail.enters_of_mem again)⟩
    · next new =>
      cases step : f.follow redirects id with
      | none => exact ⟨trail.leads, .inl step⟩
      | some next =>
        apply ih (.cons trail new step)
        rw [length_cons]
        omega

end Chase

/-- The lowest block of a loop of empty blocks. -/
structure Lowest (f : Func) (id : BlockId) : Prop where
  loops : Loops f.skip? id
  le : ∀ other, f.Skips id other → id ≤ other

theorem exists_lowest (loops : Loops f.skip? id) : ∃ low, f.Skips id low ∧ f.Lowest low := by
  have position : ∀ other, f.Skips id other → ∃ i : Nat, other = i := by
    intro other skips
    obtain ⟨next, step⟩ := (loops.onward skips).goesOn
    obtain ⟨b, found, -⟩ := skip?_eq_some step
    obtain ⟨i, same, -⟩ := at?_eq_some found
    exact ⟨i, same⟩
  obtain ⟨i, rfl⟩ := position id .refl
  obtain ⟨low, skips, least⟩ := Nat.lt_wfRel.wf.has_min {j : Nat | f.Skips i j} ⟨i, .refl⟩
  refine ⟨low, skips, loops.onward skips, fun other onward => ?_⟩
  obtain ⟨j, rfl⟩ := position other (skips.trans onward)
  exact Int.ofNat_le.mpr (Nat.not_lt.mp (least j (skips.trans onward)))

theorem Lowest.unique (lowest : f.Lowest id) (lowest' : f.Lowest low) (skips : f.Skips id low) :
    id = low :=
  Int.le_antisymm (lowest.le low skips) (lowest'.le id (lowest.loops.back skips))

/-- Where jumps to an empty block that only jumps on have to go. -/
inductive Settles (f : Func) (id target : BlockId) : Prop where
  | leaves (skips : f.Skips id target) (out : f.skip? target = none)
  | lowest (skips : f.Skips id target) (lowest : f.Lowest target) (above : target ≤ id)
  | enters (enters : Enters f.skip? id target) (below : ∀ other, f.Skips target other → id < other)

theorem Settles.skips (settles : f.Settles id target) : f.Skips id target := by
  cases settles with
  | leaves skips | lowest skips => exact skips
  | enters enters => exact enters.leads

theorem Settles.eq_of_leaves (settles : f.Settles id last) (skips : f.Skips id out)
    (stops : f.skip? out = none) : last = out := by
  cases settles with
  | leaves skips' stops' =>
    rcases Leads.total skips' skips with ahead | behind
    · exact (Leads.eq_of_none ahead stops').symm
    · exact Leads.eq_of_none behind stops
  | lowest skips' lowest => exact absurd stops (lowest.loops.never_out skips' skips)
  | enters enters => exact absurd stops (enters.loops.never_out enters.leads skips)

theorem Settles.of_loops (settles : f.Settles id target) (loops : Loops f.skip? id) :
    f.Lowest target := by
  cases settles with
  | leaves skips out =>
    obtain ⟨next, step⟩ := (loops.onward skips).goesOn
    cases out.symm.trans step
  | lowest skips lowest => exact lowest
  | enters enters below =>
    cases enters.eq_of_loops loops
    exact absurd (below id .refl) (Int.lt_irrefl id)

/-- The redirects of the empty blocks below `k`. -/
structure Settled (f : Func) (k : Nat) (redirects : Redirects) : Prop where
  domain : ∀ id, (redirects.lookup id).isSome ↔ (f.skip? id).isSome ∧ id < k
  settles : ∀ id target, redirects.lookup id = some target → f.Settles id target

section Settled

variable (settled : f.Settled k redirects)

include settled

theorem Settled.follow_skips {next : BlockId} (step : f.follow redirects id = some next) :
    Relation.TransGen (fun id id' => f.skip? id = some id') id next := by
  rcases or_eq_some_iff.mp step with redirected | ⟨-, step⟩
  · have settles := settled.settles id next redirected
    rcases Relation.reflTransGen_iff_eq_or_transGen.mp settles.skips with rfl | skips
    · cases settles with
      | leaves skips out =>
        have known := (settled.domain next).mp (isSome_of_eq_some redirected)
        rw [out] at known
        cases known.1
      | lowest skips lowest => exact lowest.loops
      | enters enters => exact enters.loops
    · exact skips
  · exact .single step

theorem Settled.skips_of_leads (leads : Leads (f.follow redirects) id last) : f.Skips id last := by
  induction leads with
  | refl => exact .refl
  | tail before step ih => exact ih.trans (settled.follow_skips step).to_reflTransGen

theorem Settled.loops_skip (loops : Loops (f.follow redirects) id) : Loops f.skip? id := by
  obtain ⟨last, leads, step⟩ := Relation.TransGen.tail'_iff.mp loops
  exact .trans_right (settled.skips_of_leads leads) (settled.follow_skips step)

theorem Settled.leads_lowest (skips : f.Skips id low) (loops : Loops f.skip? id)
    (lowest : f.Lowest low) : Leads (f.follow redirects) id low := by
  induction skips using Relation.ReflTransGen.head_induction_on with
  | refl => exact .refl
  | @head id next step rest ih =>
    cases redirected : redirects.lookup id with
    | none => exact .head (by simp [follow, redirected, step]) (ih (loops.onward (.single step)))
    | some target =>
      have settles := settled.settles id target redirected
      have same : target = low := by
        apply (settles.of_loops loops).unique lowest
        exact (loops.back settles.skips).trans (.head step rest)
      exact .single (by simp [follow, redirected, same])

theorem Settled.enters_skip (enters : Enters (f.follow redirects) id target)
    (skips : f.Skips target low) (lowest : f.Lowest low) (above : (k : BlockId) < low) :
    Enters f.skip? id target := by
  have onLoop := settled.loops_skip enters.loops
  -- The loop is not reached yet by the redirects, so that the chase goes round in it.
  have same : ∀ a, f.Skips target a → f.follow redirects a = f.skip? a := by
    intro a around
    have le := lowest.le a ((onLoop.back skips).trans around)
    cases redirected : redirects.lookup a with
    | none => simp [follow, redirected]
    | some _ =>
      have below := ((settled.domain a).mp (isSome_of_eq_some redirected)).2
      exact absurd (Int.lt_of_lt_of_le above le) (Int.lt_asymm below)
  have round : ∀ a, f.Skips target a → Loops (f.follow redirects) a := by
    intro a around
    apply (onLoop.onward around).congr
    exact fun b onward => same b (around.trans onward)
  induction enters with
  | here => exact .here onLoop
  | @there id next target outside step rest ih =>
    have onward := settled.skips_of_leads rest.leads
    rcases or_eq_some_iff.mp step with redirected | ⟨-, step⟩
    · have known := (settled.domain id).mp (isSome_of_eq_some redirected)
      cases settled.settles id next redirected with
      | leaves reach out =>
        obtain ⟨_, goesOn⟩ := onLoop.goesOn
        cases Leads.eq_of_none onward out
        cases out.symm.trans goesOn
      | lowest reach lowest' le =>
        have low_le := lowest.le next ((onLoop.back skips).trans (lowest'.loops.back onward))
        exact absurd (Int.lt_of_lt_of_le above (Int.le_trans low_le le)) (Int.lt_asymm known.2)
      | enters enters below =>
        cases rest.eq_of_loops (round next (enters.loops.back onward))
        exact enters
    · apply Enters.there _ step (ih skips onLoop same round)
      intro loops
      exact outside (round id (loops.back (.head step onward)))

theorem Settled.exist (id : BlockId) (goesOn : (f.follow redirects id).isSome) :
    (f.block? id).isSome := by
  obtain ⟨next, step⟩ := isSome_iff_exists.mp goesOn
  obtain ⟨_, step, -⟩ := Relation.TransGen.head'_iff.mp (settled.follow_skips step)
  exact skip?_isSome (isSome_of_eq_some step)

theorem Settled.trail (skips : f.skip? k = some target) :
    Trail (f.follow redirects) k [(k : BlockId)] target := by
  have unknown : redirects.lookup (k : BlockId) = none := by
    cases redirected : redirects.lookup (k : BlockId) with
    | none => rfl
    | some _ =>
      have below := ((settled.domain k).mp (isSome_of_eq_some redirected)).2
      exact absurd below (Int.lt_irrefl k)
  exact .cons .nil not_mem_nil (by simp [follow, unknown, skips])

theorem Settled.chaseWithin (skips : f.skip? k = some target) (enough : f.blocks.length ≤ rounds) :
    f.chaseWithin redirects rounds [(k : BlockId)] target =
      some (f.chase redirects (2 * f.blocks.length + 1) [(k : BlockId)] target) := by
  apply chaseWithin_eq_chase settled.exist (settled.trail skips) <;>
    rw [length_singleton] <;> omega

theorem Settled.chase (skips : f.skip? k = some target) :
    f.Settles k (f.chase redirects (2 * f.blocks.length + 1) [(k : BlockId)] target) := by
  have enough : f.blocks.length < 2 * f.blocks.length + 1 + [(k : BlockId)].length := by
    rw [length_singleton]
    omega
  obtain ⟨leads, stop⟩ := chase_spec settled.exist (settled.trail skips) enough
  generalize f.chase redirects (2 * f.blocks.length + 1) [(k : BlockId)] target = last at leads stop
  have path := settled.skips_of_leads leads
  rcases stop with out | enters
  · exact .leaves path (or_eq_none_iff.mp out).2
  · have onLoop := settled.loops_skip enters.loops
    obtain ⟨low, toLow, lowest⟩ := exists_lowest onLoop
    by_cases below : (k : BlockId) < low
    · refine .enters (settled.enters_skip enters toLow lowest below) fun other around => ?_
      exact Int.lt_of_lt_of_le below (lowest.le other ((onLoop.back toLow).trans around))
    · have toLast := enters.loops.back (settled.leads_lowest toLow onLoop lowest)
      have same : last = low := by
        by_cases own : low = k
        · subst own
          exact enters.eq_of_loops (enters.loops.onward (settled.leads_lowest toLow onLoop lowest))
        · obtain ⟨next, step⟩ := lowest.loops.goesOn
          have done : low < (k : BlockId) :=
            Int.lt_iff_le_and_ne.mpr ⟨Int.not_lt.mp below, own⟩
          obtain ⟨target', redirected⟩ := isSome_iff_exists.mp
            ((settled.domain low).mpr ⟨isSome_of_eq_some step, done⟩)
          have settles := settled.settles low target' redirected
          cases (settles.of_loops lowest.loops).unique lowest (lowest.loops.back settles.skips)
          exact Leads.eq_of_self toLast (by simp [follow, redirected])
      rw [same] at path ⊢
      exact .lowest path lowest (Int.not_lt.mp below)

end Settled

theorem Settled.pass (settled : f.Settled k redirects) (stays : f.skip? k = none) :
    f.Settled (k + 1) redirects where
  domain id := by
    rw [settled.domain, Int.natCast_add, Int.natCast_one, Int.lt_add_one_iff]
    refine and_congr_right fun skips => ⟨Int.le_of_lt, fun le => ?_⟩
    refine Int.lt_iff_le_and_ne.mpr ⟨le, fun same => ?_⟩
    rw [same, stays] at skips
    cases skips
  settles := settled.settles

theorem Settled.add (settled : f.Settled k redirects) (skips : (f.skip? k).isSome)
    (settles : f.Settles k target) : f.Settled (k + 1) (((k : BlockId), target) :: redirects) where
  domain id := by
    rw [lookup_cons, Int.natCast_add, Int.natCast_one, Int.lt_add_one_iff]
    by_cases same : id = k
    · simp [same, skips]
    · rw [beq_false_of_ne same]
      refine (settled.domain id).trans (and_congr_right fun _ => ?_)
      exact ⟨Int.le_of_lt, fun le => Int.lt_iff_le_and_ne.mpr ⟨le, same⟩⟩
  settles id last redirected := by
    rw [lookup_cons] at redirected
    split at redirected
    · next same =>
      cases redirected
      rw [eq_of_beq same]
      exact settles
    · exact settled.settles id last redirected

/-- Blocks are numbered by their positions. -/
def Numbered (f : Func) : Prop :=
  ∀ (i : Nat) b, f.blocks[i]? = some b → b.id = i

theorem redirectsFrom_settled (numbered : f.Numbered) (enough : f.blocks.length ≤ rounds)
    (split : f.blocks = before ++ rest) (settled : f.Settled before.length redirects) :
    f.redirectsWithin rounds redirects rest = some (f.redirectsFrom redirects rest) ∧
      f.Settled f.blocks.length (f.redirectsFrom redirects rest) := by
  induction rest generalizing before redirects with
  | nil =>
    rw [append_nil] at split
    rw [split]
    exact ⟨rfl, settled⟩
  | cons b rest ih =>
    have position : f.blocks[before.length]? = some b := by simp [split]
    have isNext : f.skip? before.length = b.trivialTarget? := by simp [skip?, block?, position]
    have split' : f.blocks = (before ++ [b]) ++ rest := by simp [split]
    rw [redirectsFrom, redirectsWithin, numbered _ b position]
    cases trivial : b.trivialTarget? with
    | none =>
      apply ih split'
      rw [length_append]
      exact settled.pass (isNext.trans trivial)
    | some target =>
      have skips := isNext.trans trivial
      simp only [settled.chaseWithin skips enough, bind_some]
      apply ih split'
      rw [length_append]
      exact settled.add (isSome_of_eq_some skips) (settled.chase skips)

theorem Numbered.redirects_settled (numbered : f.Numbered) (enough : f.blocks.length ≤ rounds) :
    f.redirectsWithin rounds [] f.blocks = some f.redirects ∧
      f.Settled f.blocks.length f.redirects := by
  apply redirectsFrom_settled numbered enough (nil_append _).symm
  refine ⟨fun id => ?_, fun id target redirected => by cases redirected⟩
  have empty : ([] : Redirects).lookup id = none := rfl
  rw [empty]
  refine iff_of_false (by simp) fun known => ?_
  have nonneg := (at?_isSome_iff.mp (skip?_isSome known.1)).1
  exact absurd known.2 (Int.not_lt.mpr nonneg)

theorem Numbered.settled (numbered : f.Numbered) : f.Settled f.blocks.length f.redirects :=
  (numbered.redirects_settled (Nat.le_refl _)).2

theorem Numbered.lookup_isSome (numbered : f.Numbered) :
    (f.redirects.lookup id).isSome ↔ (f.skip? id).isSome := by
  rw [numbered.settled.domain]
  exact and_iff_left_of_imp fun skips => (at?_isSome_iff.mp (skip?_isSome skips)).2

theorem Numbered.settles (numbered : f.Numbered) (skips : (f.skip? id).isSome) :
    f.Settles id (f.redirects.apply id) := by
  obtain ⟨target, redirected⟩ := isSome_iff_exists.mp (numbered.lookup_isSome.mpr skips)
  rw [Redirects.apply, redirected]
  exact numbered.settled.settles id target redirected

theorem Numbered.apply_of_none (numbered : f.Numbered) (stays : f.skip? id = none) :
    f.redirects.apply id = id := by
  cases redirected : f.redirects.lookup id with
  | none => rw [Redirects.apply, redirected]; rfl
  | some target =>
    have skips := numbered.lookup_isSome.mp (isSome_of_eq_some redirected)
    rw [stays] at skips
    cases skips

theorem Numbered.redirects_skip (numbered : f.Numbered) (id : BlockId) :
    f.Skips id (f.redirects.apply id) := by
  cases skips : f.skip? id with
  | none =>
    rw [numbered.apply_of_none skips]
    exact .refl
  | some next => exact (numbered.settles (isSome_of_eq_some skips)).skips

theorem Valid.numbered (valid : f.Valid) : f.Numbered := fun i b position =>
  (blockFaults_eq_nil (valid.blocks i b position)).1

theorem Valid.redirects_skip (valid : f.Valid) (id : BlockId) :
    f.Skips id (f.redirects.apply id) :=
  valid.numbered.redirects_skip id

end Func

/-- Every chase ends within as many rounds as there are blocks. Exactly the empty blocks that jump on
have a redirect: a block further on their chain, and its end where it leaves the empty blocks. -/
theorem redirects_follow_chains {f : Func} (numbered : f.Numbered) :
    (∀ rounds, f.blocks.length ≤ rounds →
      f.redirectsWithin rounds [] f.blocks = some f.redirects) ∧
    (∀ id, (f.redirects.lookup id).isSome ↔ ∃ next, f.Passes id next) ∧
    ∀ id last, f.redirects.lookup id = some last →
      Relation.TransGen f.Passes id last ∧
      ∀ out, Relation.TransGen f.Passes id out → (∀ next, ¬ f.Passes out next) → last = out := by
  have passes : f.Passes = fun id next => f.skip? id = some next := by
    funext id next
    exact propext Func.skip?_eq_some_iff.symm
  rw [passes]
  refine ⟨fun rounds enough => (numbered.redirects_settled enough).1, fun id => ?_,
    fun id last redirected => ⟨?_, ?_⟩⟩
  · exact numbered.lookup_isSome.trans isSome_iff_exists
  · exact numbered.settled.follow_skips (by simp [Func.follow, redirected])
  · intro out skips stops
    apply (numbered.settled.settles id last redirected).eq_of_leaves skips.to_reflTransGen
    exact eq_none_iff_forall_ne_some.mpr stops

/-- The chains go to a missing block, directly and through an earlier redirect, and into a block
that jumps to itself. -/
def leadsNowhere : Func where
  id := 0
  name := Text.ofString "lost"
  result := .void
  params := []
  locals := []
  values := []
  blocks := [
    ⟨0, [], .goto 4⟩,
    ⟨1, [], .goto 0⟩,
    ⟨2, [], .goto 3⟩,
    ⟨3, [], .goto 3⟩,
    ⟨4, [], .goto 9⟩]
  entry := 0

theorem leadsNowhere_redirects :
    leadsNowhere.Numbered ∧ leadsNowhere.redirects = [(4, 9), (3, 3), (2, 3), (1, 9), (0, 9)] ∧
    leadsNowhere.redirectsWithin 5 [] leadsNowhere.blocks = some leadsNowhere.redirects ∧
    Relation.TransGen leadsNowhere.Passes 1 9 ∧ Relation.TransGen leadsNowhere.Passes 2 3 := by
  have numbered : leadsNowhere.Numbered := by
    intro i b position
    obtain ⟨bound, rfl⟩ := List.getElem?_eq_some_iff.mp position
    revert i
    decide
  obtain ⟨ends, -, chains⟩ := redirects_follow_chains numbered
  exact ⟨numbered, by decide, ends 5 (by decide), (chains 1 9 (by decide)).1,
    (chains 2 3 (by decide)).1⟩

end MiddleEnd.Ir
