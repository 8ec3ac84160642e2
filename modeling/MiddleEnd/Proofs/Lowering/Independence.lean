import MiddleEnd.Proofs.Lowering.DeadCode

/-!
Lowering a function does not depend on what earlier lowering recorded, so functions may be lowered
in any order and any number of times.
-/

namespace MiddleEnd

open Scoping List Option Table

variable {scope : NodeId} {place : NodeId × Text}

def Scoping.ScopeEntry.places (entry : ScopeEntry) : List (NodeId × Text) :=
  entry.bindings.map fun b => (entry.key, b.name)

/-- The declarations of a statement in a scope, those of the scopes inside included. -/
def Stmt.places (scope : NodeId) (s : Stmt) : List (NodeId × Text) :=
  s.direct.map (fun b => (scope, b.name)) ++ (s.inner scope).flatMap ScopeEntry.places

def Func.places (module : NodeId) (f : Func) : List (NodeId × Text) :=
  (f.skeleton module).flatMap ScopeEntry.places

namespace Stmt

theorem places_decl (scope : NodeId) (node : Node) (mutable : Bool) (name : Text) (type : Ty)
    (value : Expr) : places scope (.decl node mutable name type value) = [(scope, name)] := by
  simp [places, direct, inner]

theorem mem_places_cond (member : place ∈ places scope (.cond node test yes no)) :
    place ∈ yes.places scope ∨ place ∈ no.places scope := by
  simp only [places, direct, inner, map_append, flatMap_append, mem_append] at *
  rcases member with (direct | direct) | inside | inside
  · exact .inl (.inl direct)
  · exact .inr (.inl direct)
  · exact .inl (.inr inside)
  · exact .inr (.inr inside)

theorem places_loop (scope : NodeId) (node : Node) (test : Expr) (body : Stmt) :
    places scope (.loop node test body) = body.places scope := by
  simp [places, direct, inner]

theorem innerOfList_eq (parent : NodeId) (stmts : List Stmt) :
    innerOfList parent stmts = stmts.flatMap (inner parent) := by
  induction stmts with
  | nil => simp [innerOfList]
  | cons s rest ih => rw [innerOfList, ih, flatMap_cons]

theorem mem_places_block (member : place ∈ places scope (.block node (some stmts))) :
    ∃ s ∈ stmts, place ∈ s.places node.id := by
  simp only [places, direct, inner, innerOfList_eq, ScopeEntry.places, map_nil, nil_append,
    flatMap_cons, mem_append, List.mem_map, mem_flatMap] at *
  rcases member with ⟨b, ⟨s, inList, declared⟩, rfl⟩ | ⟨entry, ⟨s, inList, inside⟩, member⟩
  · exact ⟨s, inList, .inl ⟨b, declared, rfl⟩⟩
  · exact ⟨s, inList, .inr ⟨entry, inside, member⟩⟩

theorem place_metInList (listed : s ∈ stmts)
    (member : ∀ live, place ∈ (s.met scope live).map Declaration.place) (live : Bool) :
    place ∈ (metInList scope live stmts).map Declaration.place := by
  induction stmts generalizing live with
  | nil => cases listed
  | cons first rest ih =>
    rw [metInList, map_append, mem_append]
    rcases mem_cons.mp listed with rfl | later
    · exact .inl (member live)
    · exact .inr (ih later _)

theorem place_met {s : Stmt} (member : place ∈ s.places scope) (live : Bool) :
    place ∈ (s.met scope live).map Declaration.place := by
  induction s using Stmt.induction generalizing scope live with
  | block node stmts each =>
    obtain ⟨s, listed, inside⟩ := mem_places_block member
    rw [met]
    exact place_metInList listed (each s listed inside) live
  | decl node mutable name type value =>
    rw [places_decl] at member
    rw [met]
    exact member
  | cond node test yes no yesIH noIH =>
    rw [met, map_append, mem_append]
    exact (mem_places_cond member).imp (yesIH · live) (noIH · live)
  | loop node test body bodyIH =>
    rw [places_loop] at member
    rw [met]
    exact bodyIH member live
  | _ => simp [places, direct, inner, ScopeEntry.places] at member

end Stmt

theorem Func.places_eq (module : NodeId) (f : Func) : f.places module = f.body.places f.id := by
  simp [places, skeleton, Stmt.places, ScopeEntry.places]

namespace Lowering

variable {final : Table}

/-- Both tables have the same record at a place that the check found. -/
def SameAt (final t t' : Table) (place : NodeId × Text) : Prop :=
  ∃ ref, final.find? place.1 place.2 = some ref ∧ t'.binding? ref = t.binding? ref

theorem func_paired (accepted : ofModule m = .ok final) (member : some f ∈ m.entries)
    (alike : final.Alike t) (alike' : final.Alike t') :
    (func m.id t' f).1 = (func m.id t f).1 ∧
      ∀ g, (func m.id t f).1 = .ok g →
        ∀ place ∈ f.places m.id, SameAt final (func m.id t f).2 (func m.id t' f).2 place := by
  have coherent := alike.coherent (ofModule_passes accepted).1
  have coherent' := alike'.coherent (ofModule_passes accepted).1
  obtain ⟨last, ⟨gap, g, succeeded⟩ | ⟨u, gap, failed⟩⟩ := func_outcome accepted member alike
  · obtain ⟨last', ⟨-, g', succeeded'⟩ | ⟨u, gap', -⟩⟩ := func_outcome accepted member alike'
    · have ran : func m.id t f = (.ok g, (func m.id t f).2) := Prod.ext succeeded rfl
      have ran' : func m.id t' f = (.ok g', (func m.id t' f).2) := Prod.ext succeeded' rfl
      obtain ⟨rfl, -, -⟩ := func_same (.refl f) coherent coherent' ran ran'
      refine ⟨succeeded'.trans succeeded.symm, fun _ _ place inside => ?_⟩
      -- Both runs record the same declarations, so the last record of the place is the same.
      obtain ⟨-, -, -, recorded⟩ := func_books coherent ran
      obtain ⟨-, -, -, recorded'⟩ := func_books coherent' ran'
      have met : place ∈ f.met.map Declaration.place :=
        Stmt.place_met (f.places_eq m.id ▸ inside) true
      rw [← places_records 0, ← lastAt?_isSome] at met
      obtain ⟨b, held⟩ := isSome_iff_exists.mp met
      obtain ⟨ref, found, binding⟩ := bind_eq_some_iff.mp ((recorded place).trans (by
        rw [held, some_or]))
      obtain ⟨ref', found', binding'⟩ := bind_eq_some_iff.mp ((recorded' place).trans (by
        rw [held, some_or]))
      rw [last.found] at found
      rw [last'.found, found] at found'
      cases found'
      exact ⟨ref, found, binding'.trans binding.symm⟩
    · cases gap.symm.trans gap'
  · obtain ⟨-, ⟨gap', -⟩ | ⟨u', gap', failed'⟩⟩ := func_outcome accepted member alike'
    · cases gap.symm.trans gap'
    · cases gap.symm.trans gap'
      refine ⟨failed'.trans failed.symm, fun g succeeded => ?_⟩
      cases failed.symm.trans succeeded

def lowerEach (module : NodeId) (t : Table) (fs : List Func) : Table :=
  fs.foldl (fun t f => (func module t f).2) t

theorem alike_lowerEach (accepted : ofModule m = .ok final) (alike : final.Alike t)
    (members : ∀ f ∈ fs, some f ∈ m.entries) : final.Alike (lowerEach m.id t fs) := by
  induction fs generalizing t with
  | nil => exact alike
  | cons f rest ih =>
    exact ih (func_decides accepted (members f (by simp)) alike).1
      fun f member => members f (by simp [member])

/-- Functions lowered in any order of their positions, each with its outcome. -/
def inOrder (module : NodeId) (entries : List (Option Func)) :
    Table → List Nat → List (Nat × Except LowerError Ir.Func)
  | _, [] => []
  | t, i :: rest =>
    match entries[i]?.join with
    | none => inOrder module entries t rest
    | some f => (i, (func module t f).1) :: inOrder module entries (func module t f).2 rest

/-- The functions at all positions were lowered, and make up this module in their order. -/
def Gathers (outcomes : List (Nat × Except LowerError Ir.Func)) (count : Nat)
    (lowered : Ir.Module) : Prop :=
  ∃ funcs, lowered = .ofFuncs funcs ∧
    (List.range count).map (fun i => outcomes.lookup i) = funcs.map fun g => some (.ok g)

section Accepted

variable {m : Module} {t : Table} (accepted : ofModule m = .ok final)

include accepted

theorem lookup_inOrder (alike : final.Alike t) (position : m.entries[i]? = some (some f))
    (covered : i ∈ order) :
    (inOrder m.id m.entries t order).lookup i = some (func m.id final f).1 := by
  induction order generalizing t with
  | nil => cases covered
  | cons j rest ih =>
    simp only [inOrder]
    split
    · next missing =>
      rcases mem_cons.mp covered with rfl | later
      · simp [position] at missing
      · exact ih alike later
    · next g found =>
      have here := join_eq_some_iff.mp found
      have member : some g ∈ m.entries := mem_of_getElem? here
      rw [lookup_cons]
      split
      · next same =>
        rw [← eq_of_beq same, position] at here
        cases here
        rw [(func_paired accepted member (.refl final) alike).1]
      · next elsewhere =>
        have later := (mem_cons.mp covered).resolve_left (by simpa using elsewhere)
        exact ih (func_decides accepted member alike).1 later

theorem outcomes_inOrder (covers : ∀ i < m.entries.length, i ∈ order) :
    (List.range m.entries.length).map
        (fun i => (inOrder m.id m.entries final order).lookup i) =
      m.entries.map (Option.map fun f => (func m.id final f).1) := by
  apply ext_getElem?
  intro i
  rw [List.getElem?_map, List.getElem?_map]
  by_cases inside : i < m.entries.length
  · obtain ⟨f, position⟩ := exists_func accepted inside
    rw [List.getElem?_range inside, position, map_some, map_some, map_some,
      lookup_inOrder accepted (.refl final) position (covers i inside)]
  · rw [List.getElem?_eq_none (by simpa using inside),
      List.getElem?_eq_none (by simpa using inside)]
    rfl

theorem collect_eq_ok_iff (alike : final.Alike t) (members : ∀ entry ∈ entries, entry ∈ m.entries)
    {funcs : List Ir.Func} :
    collect (attempts m.id t entries).1 = .ok funcs ↔
      entries.map (Option.map fun f => (func m.id final f).1) = funcs.map fun g => some (.ok g) := by
  induction entries generalizing t funcs with
  | nil => simp [attempts, collect]
  | cons entry rest ih =>
    obtain ⟨f, rfl⟩ := ofModule_entry accepted (members entry (by simp))
    have member := members (some f) (by simp)
    have alike' := (func_decides accepted member alike).1
    have same := (func_paired accepted member (.refl final) alike).1
    cases lowered : func m.id t f with
    | mk outcome t' =>
      rw [lowered] at alike' same
      simp only at alike' same
      rw [map_cons, map_some, ← same]
      cases outcome with
      | error e =>
        simp only [attempts, lowered, collect, error_mapError, error_bind]
        apply iff_of_false
        · intro absurd
          cases absurd
        · intro same
          cases funcs with
          | nil => cases same
          | cons g others => simp at same
      | ok g =>
        have others := fun funcs => @ih t' alike'
          (fun entry member => members entry (by simp [member])) funcs
        simp only [attempts, lowered, collect, ok_mapError, ok_bind, bind_eq_ok]
        cases funcs with
        | nil => simp
        | cons g' funcs' =>
          simp only [map_cons, List.cons.injEq, Option.some.injEq, Except.ok.injEq]
          constructor
          · rintro ⟨_, collected, rfl, rfl⟩
            exact ⟨rfl, (others _).mp collected⟩
          · rintro ⟨rfl, same⟩
            exact ⟨_, (others _).mpr same, rfl, rfl⟩

theorem attempts_alike (alike : final.Alike t) (alike' : final.Alike t')
    (members : ∀ entry ∈ entries, entry ∈ m.entries) :
    final.Alike (attempts m.id t entries).2 ∧
      (attempts m.id t' entries).1 = (attempts m.id t entries).1 := by
  induction entries generalizing t t' with
  | nil => exact ⟨alike, rfl⟩
  | cons entry rest ih =>
    obtain ⟨f, rfl⟩ := ofModule_entry accepted (members entry (by simp))
    have member := members (some f) (by simp)
    have next := (func_decides accepted member alike).1
    have next' := (func_decides accepted member alike').1
    have same := (func_paired accepted member alike alike').1
    simp only [attempts]
    cases lowered : func m.id t f with
    | mk outcome t₁ =>
      cases lowered' : func m.id t' f with
      | mk outcome' t₁' =>
        rw [lowered] at next same
        rw [lowered'] at next' same
        simp only at next next' same
        subst same
        cases outcome' with
        | error e => exact ⟨next, rfl⟩
        | ok g =>
          obtain ⟨last, others⟩ := ih next next' fun entry member =>
            members entry (by simp [member])
          exact ⟨last, by simp only [others]⟩

end Accepted

/-- After any functions of an accepted module were lowered, any number of times and with any
outcome, each function has the outcome it had at first, and so has the module. -/
theorem lowering_ignores_history {m : Module} {table : Table}
    (accepted : ofModule m = .ok table) :
    (∀ (earlier : List Func) (f : Func), (∀ g ∈ earlier, some g ∈ m.entries) →
      some f ∈ m.entries →
        (func m.id (lowerEach m.id table earlier) f).1 = (func m.id table f).1 ∧
        ∀ g, (func m.id table f).1 = .ok g → ∀ place ∈ f.places m.id, ∃ b,
          (func m.id table f).2.recorded? place = some b ∧
          (func m.id (lowerEach m.id table earlier) f).2.recorded? place = some b) ∧
    (∀ order : List Nat, (∀ i < m.entries.length, i ∈ order) → ∀ lowered,
      Gathers (inOrder m.id m.entries table order) m.entries.length lowered ↔
        (module false m table).result = .ok lowered) ∧
    (module false m (module false m table).table).result = (module false m table).result := by
  have coherent := (ofModule_passes accepted).1
  refine ⟨fun earlier f members member => ?_, fun order covers lowered => ?_, ?_⟩
  · have alike := alike_lowerEach accepted (.refl table) members
    obtain ⟨same, recorded⟩ := func_paired accepted member (.refl table) alike
    refine ⟨same, fun g succeeded place inside => ?_⟩
    obtain ⟨ref, found, agree⟩ := recorded g succeeded place inside
    have first := (func_decides accepted member (.refl table)).1
    have second := (func_decides accepted member alike).1
    obtain ⟨-, b, binding, -⟩ := coherent.find?_eq_some.mp found
    obtain ⟨b', binding', -⟩ := first.binding? binding
    refine ⟨b', ?_, ?_⟩
    · rw [recorded?, first.found, found, bind_some, binding']
    · rw [recorded?, second.found, found, bind_some, agree, binding']
  · rw [Gathers, outcomes_inOrder accepted covers]
    simp only [← collect_eq_ok_iff accepted (.refl table) fun _ member => member]
    constructor
    · rintro ⟨funcs, rfl, collected⟩
      change (collect (attempts m.id table m.entries).1).map _ = _
      rw [collected]
      rfl
    · intro succeeded
      obtain ⟨funcs, collected, rfl⟩ := module_eq_ok succeeded
      exact ⟨funcs, rfl, collected⟩
  · obtain ⟨last, -⟩ := attempts_alike accepted (.refl table) (.refl table) fun _ member => member
    have again := (attempts_alike accepted (.refl table) last fun _ member => member).2
    change (collect (attempts m.id (attempts m.id table m.entries).2 m.entries).1).map _ =
      (collect (attempts m.id table m.entries).1).map _
    rw [again]

/-- Stores twice a number in a block of its own and returns it. -/
def doubling : Func where
  id := 2
  name := [102]
  result := .int
  body := .block ⟨3, []⟩ (some [
    .decl ⟨4, []⟩ true [120] .int (.int ⟨5, []⟩ 1),
    .block ⟨6, []⟩ (some [
      .decl ⟨7, []⟩ false [121] .int
        (.binary ⟨8, []⟩ .add (.ident ⟨9, []⟩ [120]) (.ident ⟨10, []⟩ [120])),
      .assign ⟨11, []⟩ (.ident ⟨12, []⟩ [120]) (.ident ⟨13, []⟩ [121])]),
    .ret ⟨14, []⟩ (.ident ⟨15, []⟩ [120])])

/-- Gets as far as a variable that no slot can hold. -/
def stuck : Func where
  id := 16
  name := [103]
  result := .unit
  body := .block ⟨17, []⟩ (some [
    .decl ⟨18, []⟩ true [120] .int (.int ⟨19, []⟩ 2),
    .decl ⟨20, []⟩ true [115] .string .absent])

def doublingAndStuck : Module where
  id := 1
  name := [109]
  funcs := some [some doubling, some stuck]

theorem doublingAndStuck_accepted : ∃ t, ofModule doublingAndStuck = .ok t :=
  (ofModule_isOk_iff ⟨by decide, by decide⟩).mpr (by decide)

theorem failed_attempts_leave_no_trace :
    ∃ table code, ofModule doublingAndStuck = .ok table ∧
      (func 1 table doubling).1 = .ok code ∧
      (func 1 (lowerEach 1 table [stuck, doubling, stuck]) doubling).1 = .ok code ∧
      (∃ b, (func 1 table doubling).2.recorded? (6, [121]) = some b ∧
        (func 1 (lowerEach 1 table [stuck, doubling, stuck]) doubling).2.recorded? (6, [121]) =
          some b) ∧
      (∀ lowered, Gathers (inOrder 1 doublingAndStuck.entries table [1, 0]) 2 lowered ↔
        (module false doublingAndStuck table).result = .ok lowered) := by
  obtain ⟨table, accepted⟩ := doublingAndStuck_accepted
  have member : some doubling ∈ doublingAndStuck.entries := mem_cons_self
  obtain ⟨-, ⟨-, code, succeeded⟩ | ⟨unsupported, -⟩⟩ :=
    func_decides accepted member (.refl table)
  · obtain ⟨again, anyOrder, -⟩ := lowering_ignores_history accepted
    obtain ⟨same, recorded⟩ := again [stuck, doubling, stuck] doubling
      (by simp [doublingAndStuck, Module.entries]) member
    exact ⟨table, code, accepted, succeeded, same.trans succeeded,
      recorded code succeeded (6, [121]) (by decide), anyOrder [1, 0] (by decide)⟩
  · exact absurd (by decide : ∀ v ∈ doubling.nodes, v.isSupported) unsupported

end Lowering

end MiddleEnd
