import MiddleEnd.Proofs.Syntax.Support

/-!
Trees without what their nodes carry unread, with types as a file shows them.
-/

namespace MiddleEnd

open List

def Ty.shown : Ty → Ty
  | .other _ => .invalid
  | type => type

def Ty.itself (type : Ty) : Ty := type

def Node.plain (node : Node) : Node := ⟨node.id, []⟩

def Expr.plain : Expr → Expr
  | .absent => .absent
  | .int node value => .int node.plain value
  | .bool node value => .bool node.plain value
  | .ident node name => .ident node.plain name
  | .unary node op operand => .unary node.plain op operand.plain
  | .binary node op left right => .binary node.plain op left.plain right.plain
  | .unknown node kind => .unknown node.plain kind

mutual
/-- The statement with its types changed and nothing unread at its nodes. -/
def Stmt.plain (types : Ty → Ty) : Stmt → Stmt
  | .absent => .absent
  | .block node none => .block node.plain none
  | .block node (some stmts) => .block node.plain (some (Stmt.plainList types stmts))
  | .decl node mutable name type value => .decl node.plain mutable name (types type) value.plain
  | .assign node target value => .assign node.plain target.plain value.plain
  | .ret node value => .ret node.plain value.plain
  | .cond node test yes no =>
    .cond node.plain test.plain (Stmt.plain types yes) (Stmt.plain types no)
  | .loop node test body => .loop node.plain test.plain (Stmt.plain types body)
  | .unknown node kind => .unknown node.plain kind
def Stmt.plainList (types : Ty → Ty) : List Stmt → List Stmt
  | [] => []
  | stmt :: stmts => Stmt.plain types stmt :: Stmt.plainList types stmts
end

def Func.plain (types : Ty → Ty) (f : Func) : Func :=
  { f with result := types f.result, body := f.body.plain types }

def Module.plain (types : Ty → Ty) (m : Module) : Module :=
  { m with funcs := m.funcs.map (List.map (Option.map (Func.plain types))) }

theorem Module.entries_plain (types : Ty → Ty) (m : Module) :
    (m.plain types).entries = m.entries.map (Option.map (Func.plain types)) := by
  cases funcs : m.funcs <;> simp [entries, plain, funcs]

namespace Expr

@[simp] theorem isAbsent_plain (e : Expr) : e.plain.isAbsent = e.isAbsent := by cases e <;> rfl

theorem supported_plain (e : Expr) : e.plain.Supported ↔ e.Supported := by
  induction e with
  | absent => rfl
  | int node value | bool node value | ident node name =>
    exact ⟨fun _ => supported_leaf rfl rfl rfl, fun _ => supported_leaf rfl rfl rfl⟩
  | unary node op operand ih => rw [plain, supported_unary, supported_unary, ih]
  | binary node op left right leftIH rightIH =>
    rw [plain, supported_binary, supported_binary, leftIH, rightIH]
  | unknown node kind =>
    exact iff_of_false (supported_unknown _ kind) (supported_unknown node kind)

end Expr

theorem Ty.shown_mem (type : Ty) : type.shown ∈ [Ty.unit, .int, .bool] ↔
    type ∈ [Ty.unit, .int, .bool] := by
  cases type <;> simp [shown]

theorem Ty.shown_stored (type : Ty) : type.shown ∈ [Ty.int, .bool] ↔ type ∈ [Ty.int, .bool] := by
  cases type <;> simp [shown]

theorem Ty.shown_of_mem (known : type ∈ [Ty.unit, .int, .bool]) : type.shown = type := by
  cases type with
  | other code => simp at known
  | _ => rfl

namespace Stmt

@[simp] theorem id_plain (types : Ty → Ty) (s : Stmt) : (s.plain types).id = s.id := by
  cases s with
  | block node stmts => cases stmts <;> rfl
  | _ => rfl

@[simp] theorem isAbsent_plain (types : Ty → Ty) (s : Stmt) :
    (s.plain types).isAbsent = s.isAbsent := by
  cases s with
  | block node stmts => cases stmts <;> rfl
  | _ => rfl

theorem plainList_eq_map (types : Ty → Ty) (stmts : List Stmt) :
    plainList types stmts = stmts.map (plain types) := by
  induction stmts with
  | nil => rfl
  | cons s rest ih => exact congrArg (s.plain types :: ·) ih

theorem supported_shown (s : Stmt) : (s.plain Ty.shown).Supported ↔ s.Supported := by
  induction s using Stmt.induction with
  | absent | bare node => simp [plain, Supported, Visited.isSupported]
  | block node stmts each =>
    rw [plain, supported_block, supported_block, forall_mem_nodesOfList, forall_mem_nodesOfList,
      plainList_eq_map, forall_mem_map]
    exact forall₂_congr each
  | decl node mutable name type value =>
    rw [plain, supported_decl, supported_decl, Ty.shown_stored, Expr.isAbsent_plain,
      Expr.supported_plain]
  | assign node target value =>
    rw [plain, supported_assign, supported_assign, Expr.supported_plain, Expr.supported_plain]
  | ret node value =>
    rw [plain, supported_ret, supported_ret, Expr.isAbsent_plain, Expr.supported_plain]
  | cond node test yes no yesIH noIH =>
    rw [plain, supported_cond, supported_cond, Expr.supported_plain, yesIH, noIH]
  | loop node test body ih =>
    rw [plain, supported_loop, supported_loop, Expr.supported_plain, ih]
  | unknown node kind =>
    rw [plain]
    exact iff_of_false (supported_unknown _ kind) (supported_unknown node kind)

theorem Supported.shown {s : Stmt} (supported : s.Supported) : s.plain Ty.shown = s.plain Ty.itself := by
  induction s using Stmt.induction with
  | absent | bare node | unknown node kind => simp [plain]
  | assign node target value | ret node value => simp [plain]
  | block node stmts each =>
    rw [supported_block, forall_mem_nodesOfList] at supported
    rw [plain, plain, plainList_eq_map, plainList_eq_map,
      map_congr_left fun s member => each s member (supported s member)]
  | decl node mutable name type value =>
    rw [supported_decl] at supported
    rw [plain, plain, Ty.shown_of_mem (mem_cons_of_mem _ supported.1)]
    rfl
  | cond node test yes no yesIH noIH =>
    rw [supported_cond] at supported
    rw [plain, plain, yesIH supported.2.1, noIH supported.2.2]
  | loop node test body ih =>
    rw [supported_loop] at supported
    rw [plain, plain, ih supported.2]

end Stmt

namespace Func

theorem supported_shown (f : Func) : (f.plain Ty.shown).Supported ↔ f.Supported := by
  rw [supported_iff, supported_iff, plain, Ty.shown_mem, Stmt.supported_shown]

theorem Supported.shown {f : Func} (supported : f.Supported) : f.plain Ty.shown = f.plain Ty.itself := by
  rw [supported_iff] at supported
  rw [plain, plain, Ty.shown_of_mem supported.1, supported.2.shown]
  rfl

end Func

namespace Module

theorem supported_shown (m : Module) : (m.plain Ty.shown).Supported ↔ m.Supported := by
  simp only [supported_iff, entries_plain, mem_map, Option.map_eq_some_iff]
  constructor
  · intro supported f member
    exact (Func.supported_shown f).mp (supported _ ⟨some f, member, f, rfl, rfl⟩)
  · rintro supported _ ⟨_, member, f, rfl, rfl⟩
    exact (Func.supported_shown f).mpr (supported f member)

theorem Supported.shown {m : Module} (supported : m.Supported) :
    m.plain Ty.shown = m.plain Ty.itself := by
  obtain ⟨nodeId, name, funcs⟩ := m
  cases funcs with
  | none => rfl
  | some entries =>
    rw [supported_iff] at supported
    have each : entries.map (Option.map (Func.plain Ty.shown)) =
        entries.map (Option.map (Func.plain Ty.itself)) := by
      apply map_congr_left
      intro entry member
      cases entry with
      | none => rfl
      | some f => exact congrArg some (supported f member).shown
    simp only [plain, Option.map_some, each]

theorem Supported.plain_eq {m m' : Module} (supported : m.Supported)
    (same : m.plain Ty.shown = m'.plain Ty.shown) : m.plain Ty.itself = m'.plain Ty.itself := by
  have supported' : m'.Supported := by rwa [← supported_shown, ← same, supported_shown]
  rw [← supported.shown, same, supported'.shown]

end Module

end MiddleEnd
