import MiddleEnd.Interchange.File
import MiddleEnd.Proofs.Interchange.Forms
import MiddleEnd.Proofs.Syntax.Plain
import MiddleEnd.Proofs.Syntax.Printing

/-!
What the MessagePack form of a tree tells about the tree.
-/

namespace MiddleEnd

open List

variable {d : Datum} {e : Expr} {s : Stmt}

theorem ExprKind.mem_known {k : ExprKind} (known : k.isKnown) : k ∈ ExprKind.known := by
  cases k with
  | other code => cases known
  | _ => decide

theorem StmtKind.mem_known {k : StmtKind} (known : k.isKnown) : k ∈ StmtKind.known := by
  cases k with
  | other code => cases known
  | _ => decide

theorem BinaryOp.mem_known {op : BinaryOp} (known : op.isKnown) : op ∈ BinaryOp.known := by
  cases op with
  | other code => cases known
  | _ => decide

theorem ExprKind.name_injective :
    ∀ k ∈ ExprKind.known, ∀ k' ∈ ExprKind.known, k.name = k'.name → k = k' := by
  decide +kernel

theorem StmtKind.name_injective :
    ∀ k ∈ StmtKind.known, ∀ k' ∈ StmtKind.known, k.name = k'.name → k = k' := by
  decide +kernel

theorem UnaryOp.name_injective {op' : UnaryOp} (same : op.name = op'.name) : op = op' := by
  cases op with
  | not =>
    cases op' with
    | not => rfl
    | other code =>
      have first : (110 : UInt8) = 117 := Option.some.inj (congrArg List.head? same)
      exact absurd first (by decide)
  | other code =>
    cases op' with
    | not =>
      have first : (117 : UInt8) = 110 := Option.some.inj (congrArg List.head? same)
      exact absurd first (by decide)
    | other code' =>
      have digits : Text.ofNat code.toNat = Text.ofNat code'.toNat :=
        append_cancel_right (append_cancel_left same)
      rw [UInt8.toNat_inj.mp (Text.ofNat_injective digits)]

theorem Ty.shown_injective {type type' : Ty} (same : type.name = type'.name) :
    type.shown = type'.shown := by
  have shown (type : Ty) : type.name = type.shown.name ∧
      type.shown ∈ [Ty.invalid, .unit, .int, .bool, .string] := by
    cases type <;> exact ⟨rfl, by simp [Ty.shown]⟩
  have named : ∀ t ∈ [Ty.invalid, .unit, .int, .bool, .string],
      ∀ t' ∈ [Ty.invalid, .unit, .int, .bool, .string], t.name = t'.name → t = t' := by
    decide +kernel
  apply named _ (shown type).2 _ (shown type').2
  rw [← (shown type).1, ← (shown type').1, same]

open Interchange

theorem Node.plain_eq {node node' : Node} (ids : node.id = node'.id) :
    node.plain = node'.plain := by
  rw [plain, plain, ids]

section Assemble

variable {node node' : Node} {r : RecordType} {kind kind' : UInt8}
  {given given' : List (String × Datum)}

theorem Node.sameField
    (same : SameForm (.link r) (node.assemble r kind given) (node'.assemble r kind' given'))
    (field : Field) (member : field ∈ r.fields) {d' : Datum}
    (here : (("id", .number node.id.toNat) :: ("kind", .number kind.toNat) :: given).lookup
      field.name = some d)
    (here' : (("id", .number node'.id.toNat) :: ("kind", .number kind'.toNat) :: given').lookup
      field.name = some d') : SameField field d d' := by
  have same := SameFields.map same.fields member
  rw [lookup_append, here, lookup_append, here'] at same
  exact same

/-- An absent part, or the record of a node with this kind and number. -/
inductive Heads (r : RecordType) : Datum → Bool → UInt8 → NodeId → Prop
  | absent : Heads r .absent true 0 0
  | node (node : Node) (kind : UInt8) (given : List (String × Datum)) :
      Heads r (node.assemble r kind given) false kind node.id

theorem Heads.isLink {isAbsent : Bool} {id : NodeId} (head : Heads r d isAbsent kind id) :
    Datum.IsLink d := by
  cases head with
  | absent => exact .inl rfl
  | node => exact .inr ⟨_, rfl⟩

theorem Heads.alike (v : Vocabulary) (numbered : ⟨"id", .unsigned 4, false⟩ ∈ r.fields)
    (kinded : ⟨"kind", .word v, false⟩ ∈ r.fields) {id : NodeId} (head : Heads r d isAbsent kind id)
    (head' : Heads r d' isAbsent' kind' id') (same : SameForm (.link r) d d') :
    isAbsent = isAbsent' ∧ id = id' ∧
      (kind = kind' ∨ v.hasWord kind ∧ v.hasWord kind' ∧ v.name kind = v.name kind') := by
  cases head with
  | absent =>
    cases head' with
    | absent => exact ⟨rfl, rfl, .inl rfl⟩
    | node => exact absurd same not_sameForm_absent
  | node =>
    cases head' with
    | absent => exact absurd same.symm not_sameForm_absent
    | node => exact ⟨rfl, (Node.sameField same _ numbered rfl rfl).id,
        .inr (Node.sameField same _ kinded rfl rfl).word⟩

end Assemble

/-- No code that has a meaning stands as one without. -/
def Visited.isCanonical : Visited → Bool
  | .func f => Ty.ofCode f.result.code = f.result
  | .stmt (.decl _ _ _ type _) => Ty.ofCode type.code = type
  | .stmt (.unknown _ kind) => !(StmtKind.ofCode kind).isKnown
  | .stmt _ => true
  | .expr (.unary _ op _) => UnaryOp.ofCode op.code = op
  | .expr (.binary _ op _ _) => BinaryOp.ofCode op.code = op
  | .expr (.unknown _ kind) => !(ExprKind.ofCode kind).isKnown
  | .expr _ => true

/-- Every node below the module is the one that its codes say. -/
def Module.Canonical (m : Module) : Prop := ∀ v ∈ m.nodes, v.isCanonical

instance (m : Module) : Decidable m.Canonical :=
  inferInstanceAs (Decidable (∀ v ∈ m.nodes, v.isCanonical))

theorem getD_eq_default {α : Type} {holds : α → Bool} {xs : List α} {i : Nat} {d : α}
    (each : ∀ x ∈ xs, holds x) (fails : holds (xs.getD i d) = false) : xs.getD i d = d := by
  rw [getD_eq_getElem?_getD] at fails ⊢
  cases found : xs[i]? with
  | none => rfl
  | some x =>
    rw [found] at fails
    exact absurd (each x (mem_of_getElem? found)) (Bool.eq_false_iff.mp fails)

namespace Expr

theorem heads (e : Expr) : Heads .expr e.toDatum e.isAbsent e.kind.code e.id := by
  cases e <;> constructor

theorem ofCode_kind (canonical : ∀ v ∈ e.nodes, v.isCanonical) :
    ExprKind.ofCode e.kind.code = e.kind := by
  cases e with
  | unknown node kind =>
    have unknown := canonical (.expr (.unknown node kind)) (mem_singleton.mpr rfl)
    exact @getD_eq_default _ ExprKind.isKnown ExprKind.known _ _ (by decide)
      ((Bool.not_eq_true' _).mp unknown)
  | _ => rfl

theorem head_eq {e' : Expr} (canonical : ∀ v ∈ e.nodes, v.isCanonical)
    (canonical' : ∀ v ∈ e'.nodes, v.isCanonical)
    (same : SameForm (.link .expr) e.toDatum e'.toDatum) :
    e.isAbsent = e'.isAbsent ∧ e.kind = e'.kind ∧ e.id = e'.id := by
  obtain ⟨absents, ids, codes | ⟨known, known', spelled⟩⟩ :=
    e.heads.alike .exprKind (by decide) (by decide) e'.heads same
  · refine ⟨absents, ?_, ids⟩
    rw [← ofCode_kind canonical, codes, ofCode_kind canonical']
  · refine ⟨absents, ?_, ids⟩
    rw [← ofCode_kind canonical, ← ofCode_kind canonical']
    exact ExprKind.name_injective _ (ExprKind.mem_known known) _ (ExprKind.mem_known known') spelled

theorem plain_eq {e' : Expr} (canonical : ∀ v ∈ e.nodes, v.isCanonical)
    (canonical' : ∀ v ∈ e'.nodes, v.isCanonical)
    (same : SameForm (.link .expr) e.toDatum e'.toDatum) : e.plain = e'.plain := by
  have head := head_eq canonical canonical' same
  induction e generalizing e' with
  | absent =>
    cases e' with
    | absent => rfl
    | _ => cases head.1
  | int node value =>
    cases e' with
    | int node' value' =>
      have values := (Node.sameField same ⟨"int", .signed 4, true⟩ (by decide) rfl rfl).signed
      rw [plain, plain, Node.plain_eq head.2.2, Int32.toInt_inj.mp values]
    | absent => cases head.1
    | _ => cases head.2.1
  | bool node value =>
    cases e' with
    | bool node' value' =>
      have values := (Node.sameField same ⟨"bool", .flag, true⟩ (by decide) rfl rfl).flag
      rw [plain, plain, Node.plain_eq head.2.2, values]
    | _ => cases head.2.1
  | ident node name =>
    cases e' with
    | ident node' name' =>
      have names := (Node.sameField same ⟨"name", .text, true⟩ (by decide) rfl rfl).text
      rw [plain, plain, Node.plain_eq head.2.2, names]
    | _ => cases head.2.1
  | unary node op operand ih =>
    cases e' with
    | unary node' op' operand' =>
      obtain ⟨ops, operands, -⟩ :=
        (Node.sameField same ⟨"unary", .record .unary, true⟩ (by decide) rfl rfl).fields
      simp only [nodes_unary, forall_mem_cons] at canonical canonical'
      have meanings := UnaryOp.name_injective ops.word.2.2
      rw [of_decide_eq_true canonical.1, of_decide_eq_true canonical'.1] at meanings
      have inner := ih canonical.2 canonical'.2 operands.form
        (head_eq canonical.2 canonical'.2 operands.form)
      rw [plain, plain, Node.plain_eq head.2.2, meanings, inner]
    | _ => cases head.2.1
  | binary node op left right leftIH rightIH =>
    cases e' with
    | binary node' op' left' right' =>
      obtain ⟨ops, lefts, rights, -⟩ :=
        (Node.sameField same ⟨"binary", .record .binary, true⟩ (by decide) rfl rfl).fields
      simp only [nodes_binary, forall_mem_cons, forall_mem_append]
        at canonical canonical'
      obtain ⟨known, known', spelled⟩ := ops.word
      have meanings := BinaryOp.name_injective _ (BinaryOp.mem_known known) _
        (BinaryOp.mem_known known') spelled
      obtain ⟨here, ofLeft, ofRight⟩ := canonical
      obtain ⟨here', ofLeft', ofRight'⟩ := canonical'
      rw [of_decide_eq_true here, of_decide_eq_true here'] at meanings
      rw [plain, plain, Node.plain_eq head.2.2, meanings,
        leftIH ofLeft ofLeft' lefts.form (head_eq ofLeft ofLeft' lefts.form),
        rightIH ofRight ofRight' rights.form (head_eq ofRight ofRight' rights.form)]
    | _ => cases head.2.1
  | unknown node kind =>
    cases e' with
    | unknown node' kind' =>
      cases head.2.1
      rw [plain, plain, Node.plain_eq head.2.2]
    | _ => cases head.2.1

end Expr

namespace Stmt

theorem toData_eq_map (stmts : List Stmt) : toData stmts = stmts.map toDatum := by
  induction stmts with
  | nil => rw [toData, map_nil]
  | cons s rest ih => rw [toData, map_cons, ih]

theorem heads (s : Stmt) : Heads .stmt s.toDatum s.isAbsent s.kind.code s.id := by
  cases s with
  | block node stmts => cases stmts <;> rw [toDatum] <;> constructor
  | _ =>
    rw [toDatum]
    constructor

theorem ofCode_kind (canonical : ∀ v ∈ s.nodes, v.isCanonical) :
    StmtKind.ofCode s.kind.code = s.kind := by
  cases s with
  | unknown node kind =>
    rw [nodes_unknown, forall_mem_singleton] at canonical
    exact @getD_eq_default _ StmtKind.isKnown StmtKind.known _ _ (by decide)
      ((Bool.not_eq_true' _).mp canonical)
  | decl node mutable name type value => cases mutable <;> rfl
  | _ => rfl

theorem head_eq {s' : Stmt} (canonical : ∀ v ∈ s.nodes, v.isCanonical)
    (canonical' : ∀ v ∈ s'.nodes, v.isCanonical)
    (same : SameForm (.link .stmt) s.toDatum s'.toDatum) :
    s.isAbsent = s'.isAbsent ∧ s.kind = s'.kind ∧ s.id = s'.id := by
  obtain ⟨absents, ids, codes | ⟨known, known', spelled⟩⟩ :=
    s.heads.alike .stmtKind (by decide) (by decide) s'.heads same
  · refine ⟨absents, ?_, ids⟩
    rw [← ofCode_kind canonical, codes, ofCode_kind canonical']
  · refine ⟨absents, ?_, ids⟩
    rw [← ofCode_kind canonical, ← ofCode_kind canonical']
    exact StmtKind.name_injective _ (StmtKind.mem_known known) _ (StmtKind.mem_known known') spelled

theorem plain_eq {s' : Stmt} (canonical : ∀ v ∈ s.nodes, v.isCanonical)
    (canonical' : ∀ v ∈ s'.nodes, v.isCanonical)
    (same : SameForm (.link .stmt) s.toDatum s'.toDatum) :
    s.plain Ty.shown = s'.plain Ty.shown := by
  have head := head_eq canonical canonical' same
  induction s using Stmt.induction generalizing s' with
  | absent =>
    cases s' with
    | absent => rfl
    | _ => cases head.1
  | bare node =>
    cases s' with
    | block node' stmts' =>
      cases stmts' with
      | none => rw [plain, plain, Node.plain_eq head.2.2]
      | some stmts' =>
        rw [toDatum, toDatum] at same
        have lists :=
          (Node.sameField same ⟨"block", .record .block, true⟩ (by decide) rfl rfl).fields.1
        exact absurd lists.form not_sameForm_bare
    | _ => grind [kind, isAbsent]
  | block node stmts each =>
    cases s' with
    | block node' stmts' =>
      rw [toDatum] at same
      cases stmts' with
      | none =>
        rw [toDatum] at same
        have lists :=
          (Node.sameField same ⟨"block", .record .block, true⟩ (by decide) rfl rfl).fields.1
        exact absurd lists.form.symm not_sameForm_bare
      | some stmts' =>
        rw [toDatum, toData_eq_map, toData_eq_map] at same
        have lists :=
          (Node.sameField same ⟨"block", .record .block, true⟩ (by decide) rfl rfl).fields.1
        rw [nodes_block, forall_mem_cons, forall_mem_nodesOfList] at canonical canonical'
        have views := lists.form.links (plain Ty.shown) fun s inside s' inside' form =>
          each s inside (canonical.2 s inside) (canonical'.2 s' inside') form
            (head_eq (canonical.2 s inside) (canonical'.2 s' inside') form)
        rw [plain, plain, plainList_eq_map, plainList_eq_map, views, Node.plain_eq head.2.2]
    | _ => grind [kind, isAbsent]
  | decl node mutable name type value =>
    cases s' with
    | decl node' mutable' name' type' value' =>
      rw [toDatum, toDatum] at same
      obtain ⟨names, types, values, -⟩ :=
        (Node.sameField same ⟨"decl", .record .decl, true⟩ (by decide) rfl rfl).fields
      simp only [nodes_decl, forall_mem_cons] at canonical canonical'
      have meanings := Ty.shown_injective types.word.2.2
      rw [of_decide_eq_true canonical.1, of_decide_eq_true canonical'.1] at meanings
      have again : mutable = mutable' := by grind [kind]
      rw [plain, plain, Node.plain_eq head.2.2, names.text, meanings, again,
        Expr.plain_eq canonical.2 canonical'.2 (values.link value.heads.isLink value'.heads.isLink)]
    | _ => grind [kind, isAbsent]
  | assign node target value =>
    cases s' with
    | assign node' target' value' =>
      rw [toDatum, toDatum] at same
      obtain ⟨targets, values, -⟩ :=
        (Node.sameField same ⟨"assign", .record .assign, true⟩ (by decide) rfl rfl).fields
      simp only [nodes_assign, forall_mem_cons, forall_mem_append]
        at canonical canonical'
      rw [plain, plain, Node.plain_eq head.2.2,
        Expr.plain_eq canonical.2.1 canonical'.2.1 targets.form,
        Expr.plain_eq canonical.2.2 canonical'.2.2 values.form]
    | _ => grind [kind]
  | ret node value =>
    cases s' with
    | ret node' value' =>
      rw [toDatum, toDatum] at same
      have values :=
        (Node.sameField same ⟨"return", .record .ret, true⟩ (by decide) rfl rfl).fields.1
      simp only [nodes_ret, forall_mem_cons] at canonical canonical'
      rw [plain, plain, Node.plain_eq head.2.2, Expr.plain_eq canonical.2 canonical'.2
        (values.link value.heads.isLink value'.heads.isLink)]
    | _ => grind [kind]
  | cond node test yes no yesIH noIH =>
    cases s' with
    | cond node' test' yes' no' =>
      rw [toDatum, toDatum] at same
      obtain ⟨tests, yeses, noes, -⟩ :=
        (Node.sameField same ⟨"if", .record .cond, true⟩ (by decide) rfl rfl).fields
      have noes := noes.link no.heads.isLink no'.heads.isLink
      simp only [nodes_cond, forall_mem_cons, forall_mem_append]
        at canonical canonical'
      obtain ⟨-, ⟨ofTest, ofYes⟩, ofNo⟩ := canonical
      obtain ⟨-, ⟨ofTest', ofYes'⟩, ofNo'⟩ := canonical'
      rw [plain, plain, Node.plain_eq head.2.2, Expr.plain_eq ofTest ofTest' tests.form,
        yesIH ofYes ofYes' yeses.form (head_eq ofYes ofYes' yeses.form),
        noIH ofNo ofNo' noes (head_eq ofNo ofNo' noes)]
    | _ => grind [kind]
  | loop node test body ih =>
    cases s' with
    | loop node' test' body' =>
      rw [toDatum, toDatum] at same
      obtain ⟨tests, bodies, -⟩ :=
        (Node.sameField same ⟨"while", .record .loop, true⟩ (by decide) rfl rfl).fields
      simp only [nodes_loop, forall_mem_cons, forall_mem_append]
        at canonical canonical'
      obtain ⟨-, ofTest, ofBody⟩ := canonical
      obtain ⟨-, ofTest', ofBody'⟩ := canonical'
      rw [plain, plain, Node.plain_eq head.2.2, Expr.plain_eq ofTest ofTest' tests.form,
        ih ofBody ofBody' bodies.form (head_eq ofBody ofBody' bodies.form)]
    | _ => grind [kind]
  | unknown node kind =>
    cases s' with
    | unknown node' kind' =>
      cases head.2.1
      rw [plain, plain, Node.plain_eq head.2.2]
    | _ => grind [kind]

end Stmt

theorem Func.plain_eq {f f' : Func} (canonical : ∀ v ∈ f.nodes, v.isCanonical)
    (canonical' : ∀ v ∈ f'.nodes, v.isCanonical)
    (same : SameForm (.link .func) f.toDatum f'.toDatum) :
    f.plain Ty.shown = f'.plain Ty.shown := by
  obtain ⟨ids, names, results, bodies, -⟩ := same.fields
  rw [nodes_eq, forall_mem_cons] at canonical canonical'
  have meanings := Ty.shown_injective results.word.2.2
  rw [of_decide_eq_true canonical.1, of_decide_eq_true canonical'.1] at meanings
  rw [plain, plain, ids.id, names.text, meanings,
    Stmt.plain_eq canonical.2 canonical'.2 bodies.form]

namespace Module

theorem plain_eq {m m' : Module} (canonical : m.Canonical) (canonical' : m'.Canonical)
    (same : SameForm (.link .module) m.toDatum m'.toDatum) :
    m.plain Ty.shown = m'.plain Ty.shown := by
  obtain ⟨ids, names, lists, -⟩ := same.fields
  obtain ⟨node, name, funcs⟩ := m
  obtain ⟨node', name', funcs'⟩ := m'
  cases ids.id
  cases names.text
  rw [Canonical, forall_mem_nodes] at canonical canonical'
  cases funcs with
  | none =>
    cases funcs' with
    | none => rfl
    | some entries' => exact absurd lists.form not_sameForm_bare
  | some entries =>
    cases funcs' with
    | none => exact absurd lists.form.symm not_sameForm_bare
    | some entries' =>
      have views : entries.map (Option.map (Func.plain Ty.shown)) =
          entries'.map (Option.map (Func.plain Ty.shown)) := by
        apply lists.form.links
        intro entry inside entry' inside' form
        cases entry with
        | none =>
          cases entry' with
          | none => rfl
          | some f' => exact absurd form not_sameForm_absent
        | some f =>
          cases entry' with
          | none => exact absurd form.symm not_sameForm_absent
          | some f' =>
            apply congrArg some
            exact Func.plain_eq (canonical f inside) (canonical' f' inside') form
      simp only [plain, Option.map_some, views]

end Module

namespace Interchange

theorem plain_eq_of_encode (canonical : m.Canonical) (canonical' : m'.Canonical)
    (fits : hasForm .file (File.withSchema ⟨schema, producer, m⟩).toDatum)
    (fits' : hasForm .file (File.withSchema ⟨schema, producer, m'⟩).toDatum)
    (first : encode .messagePack (some ⟨schema, producer, m⟩) = .ok t)
    (second : encode .messagePack (some ⟨schema, producer, m'⟩) = .ok t) :
    m.plain Ty.shown = m'.plain Ty.shown := by
  have same := sameForm_of_write fits fits' (mapError_eq_ok.mp first) (mapError_eq_ok.mp second)
  have held (m : Module) : (File.withSchema ⟨schema, producer, m⟩).module = m := by
    unfold File.withSchema
    split <;> rfl
  have modules := (SameForm.fields same).2.2.1.form
  rw [held, held] at modules
  exact Module.plain_eq canonical canonical' modules

end Interchange

end MiddleEnd
