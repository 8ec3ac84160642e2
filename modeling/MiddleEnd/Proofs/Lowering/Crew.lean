import MiddleEnd.Lowering.Crew
import MiddleEnd.Proofs.Lowering.Independence

/-!
Functions that are lowered side by side come out as if one were lowered behind the other, and where
some fail it is one of them that counts.
-/

namespace MiddleEnd.Lowering

open Scoping List Option

theorem map_some_filterMap {α β : Type} {l : List α} {f : α → Option β}
    (found : ∀ a ∈ l, (f a).isSome) : (l.filterMap f).map some = l.map f := by
  induction l with
  | nil => rfl
  | cons a rest ih =>
    obtain ⟨first, others⟩ := forall_mem_cons.mp found
    obtain ⟨b, same⟩ := isSome_iff_exists.mp first
    rw [filterMap_cons_some same, map_cons, ih others, map_cons, same]

namespace Crew

variable {m : Module} {s : Crew}

def after (m : Module) (s : Crew) (turns : List Nat) : Crew :=
  turns.foldl (fun s i => (s.step m i).2) s

theorem after_append (l l' : List Nat) :
    s.after m (l ++ l') = (s.after m l).after m l' :=
  foldl_append

/-- What a crew has done so far is what the functions come to on their own. -/
structure Agrees (m : Module) (final : Table) (s : Crew) : Prop where
  alike : final.Alike s.table
  done : ∀ i g, s.done.lookup i = some g →
    ∃ f, m.entries[i]? = some (some f) ∧ (func m.id final f).1 = .ok g
  failure : ∀ e, s.failure = some e → ∃ f cause, some f ∈ m.entries ∧
    (func m.id final f).1 = .error cause ∧ e = .inFunction ⟨f.name, cause⟩

section Accepted

variable (accepted : Table.ofModule m = .ok final)

include accepted

theorem Agrees.step (agrees : s.Agrees m final) (i : Nat) :
    ((s.step m i).2).Agrees m final := by
  unfold Crew.step
  split
  · exact agrees
  · next missing =>
    obtain ⟨f, same⟩ := Table.exists_func accepted (List.getElem?_eq_some_iff.mp missing).1
    cases missing.symm.trans same
  · next f entry =>
    split
    · have member : some f ∈ m.entries := mem_of_getElem? entry
      have alike := (func_decides accepted member agrees.alike).1
      have same := (func_paired accepted member (.refl final) agrees.alike).1
      cases lowered : func m.id s.table f with
      | mk outcome table =>
        rw [lowered] at alike same
        cases outcome with
        | ok g =>
          refine ⟨alike, fun j h found => ?_, agrees.failure⟩
          simp only [Crew.finish, lookup_cons] at found
          split at found
          · next here =>
            cases found
            exact ⟨f, eq_of_beq here ▸ entry, same.symm⟩
          · exact agrees.done j h found
        | error cause =>
          refine ⟨alike, agrees.done, fun e failed => ?_⟩
          rcases or_eq_some_iff.mp failed with before | ⟨-, now⟩
          · exact agrees.failure e before
          · exact ⟨f, cause, member, same.symm, (Option.some.inj now).symm⟩
    · split
      · exact agrees
      · exact ⟨agrees.alike, agrees.done, agrees.failure⟩

theorem Agrees.after (agrees : s.Agrees m final) (l : List Nat) :
    (s.after m l).Agrees m final := by
  induction l generalizing s with
  | nil => exact agrees
  | cons i rest ih => exact ih (agrees.step accepted i)

end Accepted

theorem closed_fail (s : Crew) (e : LowerFailure) (i : Nat) : (s.fail e).closed i := by
  simp [closed, fail]

theorem closed_finish (settled : s.closed j ∨ j = i) (f : Func)
    (outcome : Except LowerError Ir.Func) : (s.finish i f outcome).closed j := by
  cases outcome with
  | error e => exact closed_fail _ _ j
  | ok g =>
    simp only [closed, finish, lookup_cons, Bool.or_eq_true] at settled ⊢
    split
    · exact .inr rfl
    · next other => exact settled.resolve_right fun same => by simp [same] at other

theorem closed_step (settled : s.closed j) (i : Nat) : ((s.step m i).2).closed j := by
  unfold step
  split
  · exact settled
  · dsimp only
    split
    · exact settled
    · exact closed_fail _ _ j
  · next f _ =>
    split
    · exact closed_finish (s := { s with table := (func m.id s.table f).2 }) (.inl settled) f _
    · split
      · exact settled
      · exact settled

theorem closed_after (settled : s.closed i) (l : List Nat) : (s.after m l).closed i := by
  induction l generalizing s with
  | nil => exact settled
  | cons j rest ih => exact ih (closed_step settled j)

theorem closed_pair (s : Crew) (entry : m.entries[i]? = some (some f)) :
    (s.after m [i, i]).closed i := by
  have ends {s : Crew} (working : i ∈ s.working) : ((s.step m i).2).closed i := by
    simp only [step, entry, working, if_true]
    exact closed_finish (.inr rfl) f _
  change (((s.step m i).2).step m i).2.closed i
  by_cases working : i ∈ s.working
  · exact closed_step (ends working) i
  · cases settled : s.closed i with
    | true => exact closed_step (closed_step settled i) i
    | false =>
      have begins : (s.step m i).2 = { s with working := i :: s.working } := by
        simp [step, entry, working, settled]
      rw [begins]
      exact ends mem_cons_self

theorem closed_turns (accepted : Table.ofModule m = .ok final) (s : Crew) (first : List Nat)
    (inside : i < m.entries.length) :
    (s.after m (turns first m.entries.length)).closed i := by
  obtain ⟨f, entry⟩ := Table.exists_func accepted inside
  obtain ⟨earlier, later, whole⟩ := append_of_mem (mem_range.mpr inside)
  rw [turns, whole, flatMap_append, flatMap_cons, ← append_assoc, after_append, after_append]
  exact closed_after (closed_pair _ entry) _

theorem Agrees.funcs (agrees : s.Agrees m final) (unfailed : s.failure = none)
    (settled : ∀ i < m.entries.length, s.closed i) :
    ∃ funcs, s.result m.entries.length = .ok (.ofFuncs funcs) ∧
      m.entries.map (Option.map fun f => (func m.id final f).1) =
        funcs.map fun g => some (.ok g) := by
  have found (i : Nat) (inside : i < m.entries.length) : (s.done.lookup i).isSome := by
    have settled := settled i inside
    rwa [closed, unfailed] at settled
  have listed := congrArg (List.map (Option.map (Except.ok : _ → Except LowerError Ir.Func)))
    (map_some_filterMap fun j inside => found j (mem_range.mp inside))
  rw [List.map_map, List.map_map] at listed
  refine ⟨_, by simp only [Crew.result, unfailed], Eq.trans ?_ listed.symm⟩
  apply ext_getElem (by simp)
  intro i inside _
  rw [length_map] at inside
  obtain ⟨g, same⟩ := isSome_iff_exists.mp (found i inside)
  obtain ⟨f, entry, lowered⟩ := agrees.done i g same
  have here := (List.getElem?_eq_some_iff.mp entry).2
  simp [here, lowered, same]

/-- In whatever turns the functions are lowered, the module comes out as from the plain loop, or
both fail, and then with the failure of one of the functions. -/
theorem result_decides {table : Table} (accepted : Table.ofModule m = .ok table)
    (first : List Nat) :
    (∃ lowered, (after m { table := table } (turns first m.entries.length)).result
        m.entries.length = .ok lowered ∧ (module false m table).result = .ok lowered) ∨
    ∃ f cause, some f ∈ m.entries ∧ (func m.id table f).1 = .error cause ∧
      (after m { table := table } (turns first m.entries.length)).result m.entries.length =
        .error (.inFunction ⟨f.name, cause⟩) ∧ ∃ e, (module false m table).result = .error e := by
  have start : Agrees m table { table := table } := ⟨.refl table, nofun, nofun⟩
  have agrees := start.after accepted (turns first m.entries.length)
  have settled := fun i => @closed_turns m table i accepted { table := table } first
  generalize after m { table := table } (turns first m.entries.length) = s at *
  have collected (funcs : List Ir.Func) :
      collect (attempts m.id table m.entries).1 = .ok funcs ↔ _ :=
    collect_eq_ok_iff accepted (.refl table) fun _ member => member
  have loop : (module false m table).result =
      (collect (attempts m.id table m.entries).1).map Ir.Module.ofFuncs := rfl
  cases failure : s.failure with
  | none =>
    obtain ⟨funcs, result, same⟩ := agrees.funcs failure settled
    exact .inl ⟨_, result, by rw [loop, (collected funcs).mpr same]; rfl⟩
  | some e =>
    obtain ⟨f, cause, member, failed, rfl⟩ := agrees.failure e failure
    refine .inr ⟨f, cause, member, failed, by simp only [Crew.result, failure], ?_⟩
    rw [loop]
    cases ending : collect (attempts m.id table m.entries).1 with
    | error e => exact ⟨e, rfl⟩
    | ok funcs =>
      have inside := mem_map_of_mem (f := Option.map fun f => (func m.id table f).1) member
      rw [(collected funcs).mp ending, map_some, failed] at inside
      obtain ⟨g, -, absurd⟩ := mem_map.mp inside
      cases absurd

end Crew

end MiddleEnd.Lowering
