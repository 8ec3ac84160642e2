import Mathlib.Data.List.Nodup
import MiddleEnd.Proofs.Interchange.Nesting
import MiddleEnd.Proofs.Interchange.Representable

/-!
Renaming a tree, seen in its record.
-/

namespace MiddleEnd

open Interchange List

variable {c : Capacity}

theorem Visited.Representable.mapNames {v : Visited} (representable : v.Representable c)
    (named : ∀ name, v.name? = some name → c.text (rename name)) :
    (v.mapNames rename).Representable c := by
  cases v with
  | func f => exact ⟨representable.1, named f.name rfl⟩
  | expr e =>
    cases e with
    | ident node name => exact ⟨representable.1, named name rfl⟩
    | _ => exact representable
  | stmt s =>
    cases s with
    | block node stmts =>
      cases stmts with
      | none =>
        rw [Visited.mapNames, Stmt.mapNames]
        exact representable
      | some stmts =>
        rw [Visited.mapNames, Stmt.mapNames, Stmt.mapNamesList_eq_map]
        refine ⟨representable.1, ?_⟩
        rw [length_map]
        exact representable.2
    | decl node mutable name type value =>
      rw [Visited.mapNames, Stmt.mapNames]
      exact ⟨representable.1, named name rfl, representable.2.2⟩
    | _ =>
      rw [Visited.mapNames, Stmt.mapNames]
      exact representable

theorem Visited.Representable.named {v : Visited} (representable : v.Representable c)
    (named : v.name? = some name) : c.text name := by
  unfold Visited.name? at named
  split at named
  · cases named
    exact representable.2
  · cases named
    exact representable.2.1
  · cases named
    exact representable.2
  · cases named

theorem Module.Representable.named {m : Module} (representable : m.Representable c) :
    ∀ name ∈ m.names, c.text name := by
  rw [names, forall_mem_cons]
  refine ⟨representable.name, fun name member => ?_⟩
  obtain ⟨v, inside, named⟩ := mem_filterMap.mp member
  exact (representable.nodes v inside).named named

theorem Module.Representable.mapNames {m : Module} (representable : m.Representable c)
    (named : ∀ name ∈ m.names, c.text (rename name)) : (m.mapNames rename).Representable c := by
  rw [names, forall_mem_cons] at named
  refine ⟨named.1, ?_, ?_⟩
  · intro funcs listed
    obtain ⟨entries, before, rfl⟩ := Option.map_eq_some_iff.mp listed
    rw [length_map]
    exact representable.few entries before
  · rw [nodes_mapNames, forall_mem_map]
    intro v member
    refine (representable.nodes v member).mapNames fun name here => ?_
    exact named.2 name (mem_filterMap.mpr ⟨v, member, here⟩)

namespace Interchange

/-- The first datum nests no deeper than the second, and holds nothing where the second does. -/
def NoDeeper (shape : Shape) (d' d : Datum) : Prop :=
  depth shape d' ≤ depth shape d ∧ (shape.isZero d → shape.isZero d')

def NoneDeeper : List Field → List Datum → List Datum → Prop
  | field :: fields, d' :: data', d :: data =>
    NoDeeper field.shape d' d ∧ NoneDeeper fields data' data
  | _, data', data => data' = data

theorem NoDeeper.refl (shape : Shape) (d : Datum) : NoDeeper shape d d :=
  ⟨Nat.le_refl _, fun zero => zero⟩

variable {data' data : List Datum} {r : RecordType}

theorem NoneDeeper.depth_le (lower : NoneDeeper fields data' data) :
    fieldsDepth fields data' ≤ fieldsDepth fields data ∧
      (areZero fields data → areZero fields data') := by
  fun_induction NoneDeeper fields data' data with
  | case1 field fields d' data' d data ih =>
    obtain ⟨here, others⟩ := lower
    obtain ⟨below, zero⟩ := ih others
    constructor
    · rw [fieldsDepth, fieldsDepth]
      have := here.1
      omega
    · rw [areZero, areZero, Bool.and_eq_true, Bool.and_eq_true]
      exact fun both => ⟨here.2 both.1, zero both.2⟩
  | case2 fields data' data =>
    cases lower
    exact ⟨Nat.le_refl _, fun zero => zero⟩

theorem NoDeeper.record (lower : NoneDeeper r.fields data' data) :
    NoDeeper (.record r) (.record data') (.record data) := by
  obtain ⟨below, zero⟩ := lower.depth_le
  refine ⟨?_, zero⟩
  rw [depth, depth]
  split
  · exact Nat.zero_le _
  · next said =>
    rw [if_neg fun here => said (zero here)]
    exact Nat.succ_le_succ below

theorem NoDeeper.link (lower : NoneDeeper r.fields data' data) :
    NoDeeper (.link r) (.record data') (.record data) := by
  refine ⟨?_, fun zero => zero⟩
  rw [depth_link, depth_link]
  exact Nat.succ_le_succ lower.depth_le.1

theorem NoDeeper.list {α : Type} {items : List α} {after before : α → Datum}
    (lower : ∀ item ∈ items, NoDeeper (.link r) (after item) (before item)) :
    NoDeeper (.links r) (.list (items.map after) []) (.list (items.map before) []) := by
  refine ⟨?_, fun zero => zero⟩
  rw [depth, depth]
  have below : itemsDepth (.link r) (items.map after) ≤ itemsDepth (.link r) (items.map before) := by
    induction items with
    | nil => exact Nat.le_refl _
    | cons item items ih =>
      rw [forall_mem_cons] at lower
      have := lower.1.1
      have := ih lower.2
      rw [map_cons, map_cons, itemsDepth, itemsDepth]
      omega
  omega

theorem NoneDeeper.map {after before : Field → Datum}
    (lower : ∀ field ∈ fields, NoDeeper field.shape (after field) (before field)) :
    NoneDeeper fields (fields.map after) (fields.map before) := by
  induction fields with
  | nil => rfl
  | cons field fields ih =>
    rw [forall_mem_cons] at lower
    exact ⟨lower.1, ih lower.2⟩

theorem NoDeeper.assemble (field : Field) (member : field ∈ r.fields)
    (lower : NoDeeper field.shape d' d) (node : Node) (kind : UInt8) :
    NoDeeper (.link r) (node.assemble r kind [(field.name, d')])
      (node.assemble r kind [(field.name, d)]) := by
  refine .link (.map fun f inside => ?_)
  simp only [cons_append, nil_append, lookup_cons]
  split
  · exact .refl _ _
  split
  · exact .refl _ _
  split
  · next named =>
    rw [inj_on_of_nodup_map r.distinct_fields inside member (beq_iff_eq.mp named)]
    exact lower
  · exact .refl _ _

end Interchange

section Renamed

variable {rename : Text → Text} (empty : rename [] = [])
include empty

theorem Interchange.noDeeper_text (name : Text) :
    NoDeeper .text (.text (rename name)) (.text name) := by
  refine ⟨Nat.le_refl _, fun zero => ?_⟩
  cases isEmpty_iff.mp zero
  rw [empty]
  rfl

theorem Expr.noDeeper (e : Expr) :
    NoDeeper (.link .expr) (e.mapNames rename).toDatum e.toDatum := by
  induction e with
  | ident node name =>
    exact .assemble ⟨"name", .text, true⟩ (by decide) (noDeeper_text empty name) node _
  | unary node op operand ih =>
    refine .assemble ⟨"unary", .record .unary, true⟩ (by decide) (.record ?_) node _
    exact ⟨.refl _ _, ih, rfl⟩
  | binary node op left right leftIH rightIH =>
    refine .assemble ⟨"binary", .record .binary, true⟩ (by decide) (.record ?_) node _
    exact ⟨.refl _ _, leftIH, rightIH, rfl⟩
  | _ => exact .refl _ _

theorem Stmt.noDeeper (s : Stmt) :
    NoDeeper (.link .stmt) (s.mapNames rename).toDatum s.toDatum := by
  induction s using Stmt.induction with
  | absent | bare node | unknown node kind =>
    rw [mapNames]
    exact .refl _ _
  | block node stmts each =>
    rw [mapNames, toDatum, toDatum, mapNamesList_eq_map, toData_eq_map, toData_eq_map, map_map]
    refine .assemble ⟨"block", .record .block, true⟩ (by decide) (.record ?_) node _
    exact ⟨.list each, rfl⟩
  | decl node mutable name type value =>
    rw [mapNames, toDatum, toDatum]
    refine .assemble ⟨"decl", .record .decl, true⟩ (by decide) (.record ?_) node _
    exact ⟨noDeeper_text empty name, .refl _ _, value.noDeeper empty, rfl⟩
  | assign node target value =>
    rw [mapNames, toDatum, toDatum]
    refine .assemble ⟨"assign", .record .assign, true⟩ (by decide) (.record ?_) node _
    exact ⟨target.noDeeper empty, value.noDeeper empty, rfl⟩
  | ret node value =>
    rw [mapNames, toDatum, toDatum]
    refine .assemble ⟨"return", .record .ret, true⟩ (by decide) (.record ?_) node _
    exact ⟨value.noDeeper empty, rfl⟩
  | cond node test yes no yesIH noIH =>
    rw [mapNames, toDatum, toDatum]
    refine .assemble ⟨"if", .record .cond, true⟩ (by decide) (.record ?_) node _
    exact ⟨test.noDeeper empty, yesIH, noIH, rfl⟩
  | loop node test body ih =>
    rw [mapNames, toDatum, toDatum]
    refine .assemble ⟨"while", .record .loop, true⟩ (by decide) (.record ?_) node _
    exact ⟨test.noDeeper empty, ih, rfl⟩

theorem Func.noDeeper (f : Func) :
    NoDeeper (.link .func) (f.mapNames rename).toDatum f.toDatum :=
  .link ⟨.refl _ _, noDeeper_text empty f.name, .refl _ _, f.body.noDeeper empty, rfl⟩

theorem Module.noDeeper (m : Module) :
    NoDeeper (.link .module) (m.mapNames rename).toDatum m.toDatum := by
  obtain ⟨id, name, funcs⟩ := m
  cases funcs with
  | none => exact .link ⟨.refl _ _, noDeeper_text empty name, .refl _ _, rfl⟩
  | some entries =>
    refine .link ⟨.refl _ _, noDeeper_text empty name, ?_, rfl⟩
    simp only [mapNames, Option.map_some, map_map]
    refine .list fun entry _ => ?_
    cases entry with
    | none => exact .refl _ _
    | some f => exact f.noDeeper empty

end Renamed

end MiddleEnd
