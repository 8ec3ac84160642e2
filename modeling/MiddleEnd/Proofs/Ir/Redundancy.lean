import MiddleEnd.Proofs.Ir.DeadCode
import Mathlib.Logic.Relation

/-!
The loads and stores that store forwarding leaves. Loads are dropped before stores, so the load of a
value that only goes into dropped stores stays behind, until another run.
-/

namespace MiddleEnd.Ir

open List Option

namespace Instr

def Uses (instr : Instr) (id : ValueId) : Prop :=
  ∃ operand ∈ instr.operands, operand.value? = some id

/-- The later instruction loads the slot that the earlier one loads or stores. -/
def RereadBy (earlier later : Instr) : Prop :=
  ∃ dst src, later = .load dst src ∧ earlier.slot? = some src

end Instr

def Terminator.Uses (term : Terminator) (id : ValueId) : Prop :=
  ∃ operand ∈ term.operands, operand.value? = some id

namespace Func

variable {f g : Func} {id : ValueId} {instr : Instr} {keep : Instr → Bool}

def instrs (f : Func) : List Instr := f.blocks.flatMap Block.instrs

def Uses (f : Func) (id : ValueId) : Prop :=
  (∃ instr ∈ f.instrs, instr.Uses id) ∨ ∃ b ∈ f.blocks, b.term.Uses id

def Loads (f : Func) (slot : LocalId) : Prop :=
  ∃ dst, .load dst slot ∈ f.instrs

/-- The value is used by more than stores to slots whose loads nobody uses. -/
def Needs (f : Func) (id : ValueId) : Prop :=
  (∃ instr ∈ f.instrs, instr.Uses id ∧
    ∀ slot value, instr = .store slot value → ∃ dst, .load dst slot ∈ f.instrs ∧ f.Uses dst) ∨
  ∃ b ∈ f.blocks, b.term.Uses id

def NoRereads (f : Func) : Prop :=
  ∀ b ∈ f.blocks, b.instrs.Pairwise fun earlier later => ¬ earlier.RereadBy later

def LoadsUsed (f : Func) : Prop :=
  ∀ dst src, .load dst src ∈ f.instrs → f.Uses dst

def StoresLoaded (f : Func) : Prop :=
  ∀ dst value, .store dst value ∈ f.instrs → f.Loads dst

theorem mem_usedValues : id ∈ f.usedValues ↔ f.Uses id := by
  simp only [usedValues, Uses, instrs, Instr.Uses, Terminator.Uses, mem_flatMap,
    mem_filterMap, mem_append]
  grind

theorem mem_loadedLocals : slot ∈ f.loadedLocals ↔ f.Loads slot := by
  simp only [loadedLocals, Loads, instrs, mem_flatMap, mem_filterMap]
  constructor
  · rintro ⟨b, block, instr, member, loads⟩
    cases instr with
    | load dst src =>
      cases loads
      exact ⟨dst, b, block, member⟩
    | _ => cases loads
  · rintro ⟨dst, b, block, member⟩
    exact ⟨b, block, _, member, rfl⟩

theorem instrs_filterInstrs (f : Func) (keep : Instr → Bool) :
    (f.filterInstrs keep).instrs = f.instrs.filter keep := by
  rw [instrs, filterInstrs, flatMap_map, instrs, filter_flatMap]

theorem filterInstrs_eq_self (all : ∀ instr ∈ f.instrs, keep instr = true) :
    f.filterInstrs keep = f := by
  have blocks : f.blocks.map (fun b => { b with instrs := b.instrs.filter keep }) = f.blocks := by
    refine (map_congr_left fun b block => ?_).trans (map_id f.blocks)
    have same : b.instrs.filter keep = b.instrs := by
      apply filter_eq_self.mpr
      exact fun instr member => all instr (mem_flatMap.mpr ⟨b, block, member⟩)
    rw [same]
    rfl
  rw [filterInstrs, blocks]

theorem term_filterInstrs :
    (∃ b ∈ (f.filterInstrs keep).blocks, b.term.Uses id) ↔ ∃ b ∈ f.blocks, b.term.Uses id := by
  constructor
  · rintro ⟨b', block', uses⟩
    obtain ⟨b, block, rfl⟩ := mem_map.mp block'
    exact ⟨b, block, uses⟩
  · rintro ⟨b, block, uses⟩
    exact ⟨_, mem_map_of_mem block, uses⟩

theorem mem_dropDeadLoads :
    instr ∈ f.dropDeadLoads.instrs ↔
      instr ∈ f.instrs ∧ ∀ dst src, instr = .load dst src → f.Uses dst := by
  rw [dropDeadLoads, instrs_filterInstrs, mem_filter]
  cases instr <;> simp [mem_usedValues]

theorem mem_dropDeadStores :
    instr ∈ f.dropDeadStores.instrs ↔
      instr ∈ f.instrs ∧ ∀ dst value, instr = .store dst value → f.Loads dst := by
  rw [dropDeadStores, instrs_filterInstrs, mem_filter]
  cases instr <;> simp [mem_loadedLocals]

theorem dropDeadLoads_eq_self (used : f.LoadsUsed) : f.dropDeadLoads = f := by
  apply filterInstrs_eq_self
  intro instr member
  cases instr with
  | load dst src => exact contains_iff_mem.mpr (mem_usedValues.mpr (used dst src member))
  | _ => rfl

theorem dropDeadStores_eq_self (loaded : f.StoresLoaded) : f.dropDeadStores = f := by
  apply filterInstrs_eq_self
  intro instr member
  cases instr with
  | store dst value =>
    exact contains_iff_mem.mpr (mem_loadedLocals.mpr (loaded dst value member))
  | _ => rfl

theorem loads_dropDeadStores : f.dropDeadStores.Loads slot ↔ f.Loads slot := by
  simp [Loads, mem_dropDeadStores]

theorem storesLoaded_dropDeadStores (f : Func) : f.dropDeadStores.StoresLoaded := by
  intro dst value member
  exact loads_dropDeadStores.mpr ((mem_dropDeadStores.mp member).2 dst value rfl)

/-- What is read after dead loads and stores are gone. -/
theorem uses_dropDead : f.dropDeadLoads.dropDeadStores.Uses id ↔ f.Needs id := by
  have terms : (∃ b ∈ f.dropDeadLoads.dropDeadStores.blocks, b.term.Uses id) ↔
      ∃ b ∈ f.blocks, b.term.Uses id := term_filterInstrs.trans term_filterInstrs
  rw [Uses, Needs, terms]
  refine or_congr_left (exists_congr fun instr => ?_)
  rw [mem_dropDeadStores, mem_dropDeadLoads, and_assoc, and_assoc]
  refine and_congr_right fun _ => ?_
  constructor
  · rintro ⟨-, stores, uses⟩
    refine ⟨uses, fun slot value isStore => ?_⟩
    obtain ⟨dst, member⟩ := stores slot value isStore
    obtain ⟨member, used⟩ := mem_dropDeadLoads.mp member
    exact ⟨dst, member, used dst slot rfl⟩
  · rintro ⟨uses, stores⟩
    refine ⟨fun dst src isLoad => ?_, fun slot value isStore => ?_, uses⟩
    · obtain ⟨operand, isOperand, -⟩ := uses
      rw [isLoad] at isOperand
      cases isOperand
    · obtain ⟨dst, member, used⟩ := stores slot value isStore
      refine ⟨dst, mem_dropDeadLoads.mpr ⟨member, ?_⟩⟩
      rintro _ _ ⟨⟩
      exact used

theorem loadsUsed_dropDead :
    f.dropDeadLoads.dropDeadStores.LoadsUsed ↔
      ∀ id slot, .load id slot ∈ f.instrs → f.Uses id → f.Needs id := by
  refine forall_congr' fun id => forall_congr' fun slot => ?_
  rw [uses_dropDead, mem_dropDeadStores, mem_dropDeadLoads]
  simp

end Func

theorem Operand.replace_nil : Operand.replace [] = fun operand => operand := by
  funext operand
  cases operand <;> rfl

namespace Known

variable {values : List Ty} {known known' : Known} {instr : Instr} {instrs out : List Instr}
  {slots : List (LocalId × Operand)}

/-- The slots that are known are those loaded or stored so far. -/
theorem step_unknown (stepped : known.step values instr = some (known', out)) (slot : LocalId) :
    known'.slots.lookup slot = none ↔ known.slots.lookup slot = none ∧ instr.slot? ≠ some slot := by
  cases stepped_of_step stepped with
  | @store dst value | @load dst src =>
    simp only [lookup_cons, Instr.slot?]
    split <;> grind
  | @forwarded dst src operand found =>
    simp only [Instr.slot?]
    grind
  | computed computes => cases computes <;> simp [Instr.slot?]
  | unknown => simp [Instr.slot?]

theorem step_load (stepped : known.step values instr = some (known', out))
    (member : .load dst src ∈ out) : known.slots.lookup src = none ∧ (at? values dst).isSome := by
  cases stepped_of_step stepped with
  | load unknown typed =>
    cases mem_singleton.mp member
    exact ⟨unknown, isSome_of_eq_some typed⟩
  | forwarded => cases member
  | computed computes => cases computes <;> cases mem_singleton.mp member
  | _ => cases mem_singleton.mp member

theorem steps_tidy (stepped : known.steps values instrs = some (known', out)) :
    out.Pairwise (fun earlier later => ¬ earlier.RereadBy later) ∧
      ∀ dst src, .load dst src ∈ out → known.slots.lookup src = none ∧ (at? values dst).isSome := by
  induction instrs generalizing known out with
  | nil =>
    cases stepped
    exact ⟨.nil, fun _ _ member => by cases member⟩
  | cons instr rest ih =>
    obtain ⟨middle, first, second, headStepped, restStepped, rfl⟩ := steps_cons stepped
    obtain ⟨apart, loads⟩ := ih restStepped
    constructor
    · refine pairwise_append.mpr ⟨?_, apart, ?_⟩
      · rcases step_out headStepped with rfl | ⟨instr', rfl⟩
        · exact .nil
        · exact pairwise_singleton _ _
      · rintro earlier inFirst later inSecond ⟨dst, src, rfl, accessed⟩
        have unknown := (step_unknown headStepped src).mp (loads dst src inSecond).1
        rw [step_slot headStepped inFirst] at accessed
        exact unknown.2 accessed
    · intro dst src member
      rcases mem_append.mp member with inFirst | inSecond
      · exact step_load headStepped inFirst
      · obtain ⟨unknown, typed⟩ := loads dst src inSecond
        exact ⟨((step_unknown headStepped src).mp unknown).1, typed⟩

theorem step_eq_self
    (loads : ∀ dst src, instr = .load dst src → slots.lookup src = none ∧ (at? values dst).isSome) :
    ∃ slots', Known.step values ⟨[], slots⟩ instr = some (⟨[], slots'⟩, [instr]) := by
  cases instr with
  | load dst src =>
    obtain ⟨unknown, typed⟩ := loads dst src rfl
    obtain ⟨type, typed⟩ := isSome_iff_exists.mp typed
    simp only [step, Instr.mapOperands, unknown, typed, map_some]
    exact ⟨_, rfl⟩
  | _ =>
    simp only [step, Operand.replace_nil, Instr.mapOperands_id]
    exact ⟨_, rfl⟩

/-- Nothing is forwarded in a block that loads no slot again. -/
theorem steps_eq_self
    (apart : instrs.Pairwise fun earlier later => ¬ earlier.RereadBy later)
    (loads : ∀ dst src, .load dst src ∈ instrs →
      slots.lookup src = none ∧ (at? values dst).isSome) :
    ∃ slots', Known.steps values ⟨[], slots⟩ instrs = some (⟨[], slots'⟩, instrs) := by
  induction instrs generalizing slots with
  | nil => exact ⟨slots, rfl⟩
  | cons instr rest ih =>
    obtain ⟨head, rest'⟩ := pairwise_cons.mp apart
    obtain ⟨middle, stepped⟩ := @step_eq_self values instr slots fun dst src isLoad =>
      loads dst src (by simp [isLoad])
    obtain ⟨slots', steppedRest⟩ := @ih middle rest' fun dst src member => by
      obtain ⟨unknown, typed⟩ := loads dst src (mem_cons_of_mem _ member)
      refine ⟨(step_unknown stepped src).mpr ⟨unknown, fun accessed => ?_⟩, typed⟩
      exact head _ member ⟨dst, src, rfl, accessed⟩
    exact ⟨slots', by simp [steps, stepped, steppedRest]⟩

end Known

/-- No slot is loaded again, and loads define values of the function. -/
structure Block.Tidy (values : List Ty) (b : Block) : Prop where
  apart : b.instrs.Pairwise fun earlier later => ¬ earlier.RereadBy later
  typed : ∀ dst src, .load dst src ∈ b.instrs → (at? values dst).isSome

namespace Func

variable {f g : Func} {values : List Ty} {forwarded : List (ValueId × Operand)}
  {blocks blocks' : List Block}

def Tidy (f : Func) : Prop := ∀ b ∈ f.blocks, b.Tidy f.values

theorem Tidy.filterInstrs (tidy : f.Tidy) (keep : Instr → Bool) : (f.filterInstrs keep).Tidy := by
  intro b' block'
  obtain ⟨b, block, rfl⟩ := mem_map.mp block'
  obtain ⟨apart, typed⟩ := tidy b block
  exact ⟨apart.filter keep, fun dst src member => typed dst src (mem_filter.mp member).1⟩

theorem Tidy.dropDead (tidy : f.Tidy) : f.dropDeadLoads.dropDeadStores.Tidy :=
  (tidy.filterInstrs _).filterInstrs _

theorem Tidy.noRereads (tidy : f.Tidy) : f.NoRereads := fun b block => (tidy b block).apart

theorem forwardBlocks_tidy (rewritten : forwardBlocks values forwarded blocks = some blocks') :
    ∀ b ∈ blocks', b.Tidy values := by
  induction blocks generalizing forwarded blocks' with
  | nil =>
    cases rewritten
    intro b block
    cases block
  | cons b rest ih =>
    simp only [forwardBlocks, bind_eq_bind, bind_eq_some_iff] at rewritten
    obtain ⟨⟨known, out⟩, stepped, rest', rewrittenRest, same⟩ := rewritten
    cases same
    obtain ⟨apart, loads⟩ := Known.steps_tidy stepped
    intro b' block
    rcases mem_cons.mp block with rfl | later
    · exact ⟨apart, fun dst src member => (loads dst src member).2⟩
    · exact ih rewrittenRest b' later

theorem forwardBlocks_eq_self (tidy : ∀ b ∈ blocks, b.Tidy values) :
    forwardBlocks values [] blocks = some blocks := by
  induction blocks with
  | nil => rfl
  | cons b rest ih =>
    obtain ⟨⟨apart, typed⟩, tidyRest⟩ := forall_mem_cons.mp tidy
    obtain ⟨slots, stepped⟩ := @Known.steps_eq_self values b.instrs [] apart
      fun dst src member => ⟨rfl, typed dst src member⟩
    simp [forwardBlocks, stepped, ih tidyRest, Operand.replace_nil]

theorem Tidy.forwardStores (tidy : f.Tidy) :
    f.forwardStores? = some f.dropDeadLoads.dropDeadStores := by
  rw [forwardStores?, forwardBlocks_eq_self tidy, map_some]

theorem Tidy.forwardStores_eq_self (tidy : f.Tidy) (loaded : f.StoresLoaded) :
    f.forwardStores? = some f ↔ f.LoadsUsed := by
  rw [tidy.forwardStores, Option.some.injEq]
  constructor
  · intro same dst src member
    rw [← same, mem_dropDeadStores, mem_dropDeadLoads] at member
    exact member.1.2 dst src rfl
  · intro used
    rw [dropDeadLoads_eq_self used, dropDeadStores_eq_self loaded]

theorem length_dropDead (wasted : ¬ f.LoadsUsed) :
    f.dropDeadLoads.dropDeadStores.instrs.length < f.instrs.length := by
  simp only [LoadsUsed, Classical.not_forall] at wasted
  obtain ⟨dst, src, member, unused⟩ := wasted
  rw [dropDeadStores, instrs_filterInstrs]
  apply Nat.lt_of_le_of_lt (length_filter_le _ _)
  rw [dropDeadLoads, instrs_filterInstrs, length_filter_lt_length_iff_exists]
  exact ⟨_, member, by simp [mem_usedValues, unused]⟩

/-- Run again and again, forwarding comes to an end where nothing is left to drop. -/
theorem Tidy.settles (tidy : f.Tidy) (loaded : f.StoresLoaded) :
    ∃ last, Relation.ReflTransGen (fun f g => f.forwardStores? = some g) f last ∧
      last.NoRereads ∧ last.StoresLoaded ∧ last.LoadsUsed ∧ last.forwardStores? = some last := by
  induction size : f.instrs.length using Nat.strongRecOn generalizing f with
  | ind n ih =>
    by_cases used : f.LoadsUsed
    · exact ⟨f, .refl, tidy.noRereads, loaded, used, (tidy.forwardStores_eq_self loaded).mpr used⟩
    · obtain ⟨last, runs, settled⟩ := ih _ (size ▸ length_dropDead used)
        tidy.dropDead (storesLoaded_dropDeadStores f.dropDeadLoads) rfl
      exact ⟨last, .head tidy.forwardStores runs, settled⟩

end Func

/-- Store forwarding leaves no load of a slot known in its block and no store to a slot that nobody
loads. It leaves unused loads exactly where a value only goes into dropped stores; further runs drop
these. -/
theorem forwardStores_leaves {f : Func} (valid : f.faults = []) :
    ∃ h g : Func, Func.forwardBlocks f.values [] f.blocks = some h.blocks ∧
      h = { f with blocks := h.blocks } ∧ f.forwardStores? = some g ∧
      g.NoRereads ∧ g.StoresLoaded ∧
      (g.LoadsUsed ↔ ∀ id slot, .load id slot ∈ h.instrs → h.Uses id → h.Needs id) ∧
      (g.forwardStores? = some g ↔ g.LoadsUsed) ∧
      ∃ last, Relation.ReflTransGen (fun f g => f.forwardStores? = some g) g last ∧
        last.NoRereads ∧ last.StoresLoaded ∧ last.LoadsUsed ∧ last.forwardStores? = some last := by
  obtain ⟨blocks, rewritten, -⟩ := (f.faults_eq_nil_iff.mp valid).forwardBlocks
  have forwarded : Func.Tidy { f with blocks := blocks } := Func.forwardBlocks_tidy rewritten
  have loaded := Func.storesLoaded_dropDeadStores (Func.dropDeadLoads { f with blocks := blocks })
  refine ⟨{ f with blocks := blocks }, _, rewritten, rfl, ?_, forwarded.dropDead.noRereads, loaded,
    Func.loadsUsed_dropDead, forwarded.dropDead.forwardStores_eq_self loaded,
    forwarded.dropDead.settles loaded⟩
  rw [Func.forwardStores?, rewritten, map_some]

theorem countToTen_leaves :
    countToTen.faults = [] ∧ ∃ g, countToTen.forwardStores? = some g ∧
      g.NoRereads ∧ g.StoresLoaded ∧ g.LoadsUsed ∧ g.forwardStores? = some g := by
  have valid : countToTen.faults = [] := by decide
  obtain ⟨h, g, -, -, rewritten, noRereads, loaded, -, unchanged, -⟩ := forwardStores_leaves valid
  have again : countToTen.forwardStores?.bind Func.forwardStores? = countToTen.forwardStores? := rfl
  rw [rewritten, bind_some] at again
  exact ⟨valid, g, rewritten, noRereads, loaded, unchanged.mp again, again⟩

/-- A slot is copied to one that is never loaded. -/
def copiesUnread : Func where
  id := 0
  name := Text.ofString "copy"
  result := .void
  params := []
  locals := [⟨.i32, Text.ofString "a"⟩, ⟨.i32, Text.ofString "b"⟩]
  values := [.i32]
  blocks := [⟨0, [.load 0 0, .store 1 (.value 0 .i32)], .ret none⟩]
  entry := 0

theorem copiesUnread_leaves_load :
    copiesUnread.faults = [] ∧ copiesUnread.BlockLocal ∧
      ∃ g, copiesUnread.forwardStores? = some g ∧ g.blocks = [⟨0, [.load 0 0], .ret none⟩] ∧
        ¬ g.LoadsUsed ∧ g.forwardStores? ≠ some g := by
  refine ⟨by decide, by decide, { copiesUnread with blocks := [⟨0, [.load 0 0], .ret none⟩] }, rfl,
    rfl, fun used => ?_, by decide⟩
  have uses := Func.mem_usedValues.mpr (used 0 0 mem_cons_self)
  cases uses

end MiddleEnd.Ir
