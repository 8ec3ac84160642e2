import MiddleEnd.Proofs.Syntax.Nodes

/-!
Lexical scoping, read off the tree alone.
-/

namespace MiddleEnd

open List Stmt

variable {stmts : List Stmt} {s : Stmt} {u : NodeId}

/-- A declaration statement, as the names in scope refer to it. -/
structure Declared where
  node : NodeId
  mutable : Bool
  deriving DecidableEq, Repr, Inhabited

/-- The declarations reached so far in each open scope, from the innermost scope outwards. -/
abbrev Env := List (List (Text × Declared))

namespace Env

def find? (env : Env) (name : Text) : Option Declared :=
  env.findSome? fun names => names.lookup name

def declares (env : Env) (name : Text) : Bool :=
  match env with
  | [] => false
  | names :: _ => (names.lookup name).isSome

/-- Adds a declaration to the innermost scope, where an earlier one of the same name stays. -/
def declare (env : Env) (name : Text) (d : Declared) : Env :=
  match env with
  | [] => []
  | names :: outer =>
    if declares (names :: outer) name then names :: outer else ((name, d) :: names) :: outer

/-- The scope of a function inside the scope of its module, both without declarations. -/
def ofFunction : Env := [[], []]

theorem find?_cons (names : List (Text × Declared)) (outer : Env) (name : Text) :
    find? (names :: outer) name = (names.lookup name).or (find? outer name) := by
  simp only [find?, List.findSome?_cons]
  cases names.lookup name <;> rfl

def nodes (env : Env) : List NodeId :=
  env.flatMap fun names => names.map fun entry => entry.2.node

variable {name : Text} {d : Declared}

theorem mem_of_lookup {names : List (Text × Declared)} (found : names.lookup name = some d) :
    (name, d) ∈ names := by
  induction names with
  | nil => cases found
  | cons entry rest ih =>
    rw [lookup_cons] at found
    split at found
    · next same =>
      cases found
      rw [eq_of_beq same]
      exact mem_cons_self
    · exact mem_cons_of_mem _ (ih found)

theorem mem_nodes_of_find? {env : Env} (means : env.find? name = some d) : d.node ∈ env.nodes := by
  obtain ⟨names, member, found⟩ := exists_of_findSome?_eq_some means
  exact mem_flatMap.mpr ⟨names, member, mem_map.mpr ⟨_, mem_of_lookup found, rfl⟩⟩

theorem mem_nodes_declare {env : Env} {id : NodeId} (member : id ∈ (env.declare name d).nodes) :
    id ∈ env.nodes ∨ id = d.node := by
  cases env with
  | nil => exact .inl member
  | cons names outer =>
    simp only [declare] at member
    split at member
    · exact .inl member
    · simp only [nodes, flatMap_cons, map_cons, cons_append, mem_cons] at member
      exact member.symm

end Env

/-- The scope behind a statement. A declaration that stands as a branch of its own belongs to the
scope around the conditional or the loop. -/
def Stmt.declare (env : Env) : Stmt → Env
  | .decl node mutable name _ _ => env.declare name ⟨node.id, mutable⟩
  | .cond _ _ yes no => no.declare (yes.declare env)
  | .loop _ _ body => body.declare env
  | _ => env

def Stmt.declareAll (env : Env) (stmts : List Stmt) : Env :=
  stmts.foldl declare env

theorem Stmt.declare_cons (s : Stmt) (names : List (Text × Declared)) (outer : Env) :
    ∃ names', s.declare (names :: outer) = names' :: outer := by
  induction s using induction generalizing names with
  | decl node mutable name type value =>
    simp only [declare, Env.declare]
    split
    · exact ⟨names, rfl⟩
    · exact ⟨_, rfl⟩
  | cond node test yes no yesCons noCons =>
    obtain ⟨names', same⟩ := yesCons names
    simpa only [declare, same] using noCons names'
  | loop node test body bodyCons => exact bodyCons names
  | _ => exact ⟨names, rfl⟩

theorem Stmt.declareAll_cons (stmts : List Stmt) (names : List (Text × Declared)) (outer : Env) :
    ∃ names', declareAll (names :: outer) stmts = names' :: outer := by
  induction stmts generalizing names with
  | nil => exact ⟨names, rfl⟩
  | cons s rest ih =>
    obtain ⟨names', same⟩ := s.declare_cons names outer
    simpa only [declareAll, foldl_cons, same] using ih names'

/-- The identifiers of an expression in order, each with the declaration it means. -/
def Expr.uses (env : Env) : Expr → List (NodeId × Option NodeId)
  | .ident node name => [(node.id, (env.find? name).map Declared.node)]
  | .unary _ _ operand => operand.uses env
  | .binary _ _ left right => left.uses env ++ right.uses env
  | _ => []

/-- Every name of the expression has a declaration in scope. -/
def Expr.Resolved (env : Env) : Expr → Prop
  | .ident _ name => (env.find? name).isSome
  | .unary _ _ operand => operand.Resolved env
  | .binary _ _ left right => left.Resolved env ∧ right.Resolved env
  | _ => True

/-- Only a name that was declared mutable can be assigned to. A target may be left out. -/
def Expr.Assignable (env : Env) : Expr → Prop
  | .absent => True
  | .ident _ name => ∃ d, env.find? name = some d ∧ d.mutable = true
  | _ => False

namespace Stmt

mutual
def uses (env : Env) : Stmt → List (NodeId × Option NodeId)
  | .block _ (some stmts) => usesOfList ([] :: env) stmts
  | .decl _ _ _ _ value => value.uses env
  | .assign _ target value => target.uses env ++ value.uses env
  | .ret _ value => value.uses env
  | .cond _ test yes no => test.uses env ++ uses env yes ++ uses (yes.declare env) no
  | .loop _ test body => test.uses env ++ uses env body
  | _ => []
def usesOfList (env : Env) : List Stmt → List (NodeId × Option NodeId)
  | [] => []
  | s :: rest => uses env s ++ usesOfList (s.declare env) rest
end

mutual
/-- Every name has a declaration in scope, no scope declares a name twice, and only mutable names
are assigned to. -/
def WellScoped (env : Env) : Stmt → Prop
  | .block _ (some stmts) => WellScopedList ([] :: env) stmts
  | .decl _ _ name _ value => value.Resolved env ∧ env.declares name = false
  | .assign _ target value => target.Assignable env ∧ value.Resolved env
  | .ret _ value => value.Resolved env
  | .cond _ test yes no =>
    test.Resolved env ∧ WellScoped env yes ∧ WellScoped (yes.declare env) no
  | .loop _ test body => test.Resolved env ∧ WellScoped env body
  | _ => True
def WellScopedList (env : Env) : List Stmt → Prop
  | [] => True
  | s :: rest => WellScoped env s ∧ WellScopedList (s.declare env) rest
end

end Stmt

theorem Expr.map_fst_uses (env : Env) (e : Expr) : (e.uses env).map Prod.fst = e.identifiers := by
  induction e with
  | unary node op operand ih =>
    rw [uses, identifiers, nodes_unary, filterMap_cons_none rfl, ih, identifiers]
  | binary node op left right leftIH rightIH =>
    rw [uses, identifiers, nodes_binary, filterMap_cons_none rfl, map_append,
      filterMap_append, leftIH, rightIH, identifiers, identifiers]
  | _ => rfl

namespace Stmt

theorem map_fst_usesOfList (each : ∀ s ∈ stmts, ∀ env, (s.uses env).map Prod.fst = s.identifiers)
    (env : Env) : (usesOfList env stmts).map Prod.fst = identifiersOfList stmts := by
  induction stmts generalizing env with
  | nil => simp [usesOfList, identifiersOfList]
  | cons s rest ih =>
    rw [usesOfList, map_append, each s (by simp), identifiersOfList_cons,
      ih fun s member => each s (by simp [member])]

theorem map_fst_uses (env : Env) (s : Stmt) : (s.uses env).map Prod.fst = s.identifiers := by
  induction s using induction generalizing env with
  | block node stmts each =>
    rw [uses, identifiers_block]
    exact map_fst_usesOfList each _
  | cond node test yes no yesIH noIH => simp [uses, Expr.map_fst_uses, yesIH, noIH]
  | loop node test body bodyIH => simp [uses, Expr.map_fst_uses, bodyIH]
  | _ => simp [uses, Expr.map_fst_uses]

end Stmt

variable {env : Env}

theorem Expr.Resolved.uses {e : Expr} (resolved : e.Resolved env) :
    ∀ use ∈ e.uses env, use.2.isSome := by
  induction e with
  | ident node name => simpa [Expr.uses, Resolved] using resolved
  | unary node op operand ih => exact ih resolved
  | binary node op left right leftIH rightIH =>
    intro use member
    rcases mem_append.mp member with inLeft | inRight
    · exact leftIH resolved.1 use inLeft
    · exact rightIH resolved.2 use inRight
  | _ => simp [Expr.uses]

theorem Expr.Assignable.resolved {target : Expr} (assignable : target.Assignable env) :
    target.Resolved env := by
  cases target with
  | absent => trivial
  | ident node name =>
    obtain ⟨d, means, -⟩ := assignable
    simp [Expr.Resolved, means]
  | _ => exact assignable.elim

namespace Stmt

theorem WellScopedList.uses
    (each : ∀ s ∈ stmts, ∀ env, s.WellScoped env → ∀ use ∈ s.uses env, use.2.isSome)
    (wellScoped : WellScopedList env stmts) : ∀ use ∈ usesOfList env stmts, use.2.isSome := by
  induction stmts generalizing env with
  | nil => simp [usesOfList]
  | cons s rest ih =>
    simp only [WellScopedList] at wellScoped
    intro use member
    rw [usesOfList] at member
    rcases mem_append.mp member with inHead | inRest
    · exact each s (by simp) env wellScoped.1 use inHead
    · exact ih (fun s member => each s (by simp [member])) wellScoped.2 use inRest

theorem WellScoped.uses (wellScoped : s.WellScoped env) : ∀ use ∈ s.uses env, use.2.isSome := by
  induction s using induction generalizing env with
  | absent | bare | unknown => simp [uses]
  | block node stmts each =>
    simp only [WellScoped] at wellScoped
    rw [uses]
    exact WellScopedList.uses (fun s member env => each s member) wellScoped
  | decl node mutable name type value =>
    simp only [WellScoped] at wellScoped
    rw [uses]
    exact wellScoped.1.uses
  | assign node target value =>
    simp only [WellScoped] at wellScoped
    intro use member
    rw [uses] at member
    rcases mem_append.mp member with inTarget | inValue
    · exact wellScoped.1.resolved.uses use inTarget
    · exact wellScoped.2.uses use inValue
  | ret node value =>
    simp only [WellScoped] at wellScoped
    rw [uses]
    exact wellScoped.uses
  | cond node test yes no yesIH noIH =>
    simp only [WellScoped] at wellScoped
    intro use member
    rw [uses, mem_append, mem_append] at member
    rcases member with (inTest | inYes) | inNo
    · exact wellScoped.1.uses use inTest
    · exact yesIH wellScoped.2.1 use inYes
    · exact noIH wellScoped.2.2 use inNo
  | loop node test body bodyIH =>
    simp only [WellScoped] at wellScoped
    intro use member
    rw [uses, mem_append] at member
    rcases member with inTest | inBody
    · exact wellScoped.1.uses use inTest
    · exact bodyIH wellScoped.2 use inBody

end Stmt

theorem Expr.mem_nodes_of_uses {e : Expr} (member : (u, some d) ∈ e.uses env) : d ∈ env.nodes := by
  induction e with
  | ident node name =>
    simp only [uses, mem_singleton, Prod.mk.injEq] at member
    obtain ⟨declared, means, rfl⟩ := Option.map_eq_some_iff.mp member.2.symm
    exact Env.mem_nodes_of_find? means
  | unary node op operand ih => exact ih member
  | binary node op left right leftIH rightIH =>
    rcases mem_append.mp member with inLeft | inRight
    · exact leftIH inLeft
    · exact rightIH inRight
  | _ => cases member

namespace Stmt

variable {env : Env}

theorem mem_nodes_declare {id : NodeId} (member : id ∈ (s.declare env).nodes) :
    id ∈ env.nodes ∨ id ∈ s.declarations := by
  induction s using induction generalizing env with
  | decl node mutable name type value =>
    simpa using Env.mem_nodes_declare member
  | cond node test yes no yesIH noIH =>
    rw [declarations_cond, mem_append]
    rcases noIH member with earlier | inNo
    · exact (yesIH earlier).imp_right .inl
    · exact .inr (.inr inNo)
  | loop node test body bodyIH => simpa using bodyIH member
  | absent | bare | block | assign | ret | unknown => exact .inl member

theorem mem_nodes_of_usesOfList
    (each : ∀ s ∈ stmts, ∀ env, (u, some d) ∈ s.uses env → d ∈ env.nodes ∨ d ∈ s.declarations)
    (member : (u, some d) ∈ usesOfList env stmts) :
    d ∈ env.nodes ∨ d ∈ declarationsOfList stmts := by
  induction stmts generalizing env with
  | nil => simp [usesOfList] at member
  | cons s rest ih =>
    rw [usesOfList] at member
    rw [declarationsOfList_cons, mem_append]
    rcases mem_append.mp member with inHead | inRest
    · exact (each s (by simp) env inHead).imp_right .inl
    · rcases ih (fun s member => each s (by simp [member])) inRest with earlier | later
      · exact (mem_nodes_declare earlier).imp_right .inl
      · exact .inr (.inr later)

theorem mem_nodes_of_uses (member : (u, some d) ∈ s.uses env) :
    d ∈ env.nodes ∨ d ∈ s.declarations := by
  induction s using induction generalizing env with
  | absent | bare | unknown => simp [uses] at member
  | block node stmts each =>
    rw [uses] at member
    rw [declarations_block]
    simpa [Env.nodes] using mem_nodes_of_usesOfList (fun s member env => each s member) member
  | decl | ret =>
    rw [uses] at member
    exact .inl (Expr.mem_nodes_of_uses member)
  | assign node target value =>
    rw [uses] at member
    rcases mem_append.mp member with inTarget | inValue
    · exact .inl (Expr.mem_nodes_of_uses inTarget)
    · exact .inl (Expr.mem_nodes_of_uses inValue)
  | cond node test yes no yesIH noIH =>
    rw [uses, mem_append, mem_append] at member
    rw [declarations_cond, mem_append]
    rcases member with (inTest | inYes) | inNo
    · exact .inl (Expr.mem_nodes_of_uses inTest)
    · exact (yesIH inYes).imp_right .inl
    · rcases noIH inNo with earlier | later
      · exact (mem_nodes_declare earlier).imp_right .inl
      · exact .inr (.inr later)
  | loop node test body bodyIH =>
    rw [uses, mem_append] at member
    rw [declarations_loop]
    rcases member with inTest | inBody
    · exact .inl (Expr.mem_nodes_of_uses inTest)
    · exact bodyIH inBody

end Stmt

instance Expr.Resolved.decidable (env : Env) : (e : Expr) → Decidable (e.Resolved env)
  | .ident _ name => inferInstanceAs (Decidable ((env.find? name).isSome = true))
  | .unary _ _ operand => decidable env operand
  | .binary _ _ left right => @instDecidableAnd _ _ (decidable env left) (decidable env right)
  | .absent | .int _ _ | .bool _ _ | .unknown _ _ => .isTrue trivial

instance (env : Env) : (target : Expr) → Decidable (target.Assignable env)
  | .absent => .isTrue trivial
  | .ident _ name => inferInstanceAs (Decidable (∃ d, env.find? name = some d ∧ d.mutable = true))
  | .int _ _ | .bool _ _ | .unary _ _ _ | .binary _ _ _ _ | .unknown _ _ => .isFalse id

mutual
instance Stmt.WellScoped.decidable (env : Env) : (s : Stmt) → Decidable (s.WellScoped env)
  | .block _ (some stmts) => WellScopedList.decidable ([] :: env) stmts
  | .decl _ _ _ _ _ | .assign _ _ _ => instDecidableAnd
  | .ret _ value => Expr.Resolved.decidable env value
  | .cond _ _ yes no =>
    have := WellScoped.decidable env yes
    have := WellScoped.decidable (yes.declare env) no
    instDecidableAnd
  | .loop _ _ body =>
    have := WellScoped.decidable env body
    instDecidableAnd
  | .absent | .block _ none | .unknown _ _ => .isTrue trivial
instance Stmt.WellScopedList.decidable (env : Env) :
    (stmts : List Stmt) → Decidable (WellScopedList env stmts)
  | [] => .isTrue trivial
  | s :: rest =>
    have := WellScoped.decidable env s
    have := WellScopedList.decidable (s.declare env) rest
    instDecidableAnd
end

/-- A function is well scoped where its body is, in a scope of its own. -/
def Func.WellScoped (f : Func) : Prop := f.body.WellScoped .ofFunction

/-- No function is left out, and each is well scoped. -/
def Module.WellScoped (m : Module) : Prop := ∀ entry ∈ m.entries, ∃ f, entry = some f ∧ f.WellScoped

instance (m : Module) : Decidable m.WellScoped :=
  decidable_of_iff (∀ entry ∈ m.entries, entry.any fun f => f.body.WellScoped .ofFunction) (by
    simp [Module.WellScoped, Func.WellScoped, Option.any_eq_true])

def Func.uses (f : Func) : List (NodeId × Option NodeId) := f.body.uses .ofFunction

def Module.uses (m : Module) : List (NodeId × Option NodeId) :=
  m.entries.flatMap fun entry => entry.elim [] Func.uses

namespace Module

theorem map_fst_uses (m : Module) : m.uses.map Prod.fst = m.identifiers := by
  rw [uses, map_flatMap, identifiers_eq]
  congr 1
  funext entry
  cases entry with
  | none => rfl
  | some f => exact f.body.map_fst_uses .ofFunction

variable {m : Module}

theorem Numbered.uses_unique (numbered : m.Numbered) (here : (u, first) ∈ m.uses)
    (there : (u, second) ∈ m.uses) : first = second := by
  have nodup : (m.uses.map Prod.fst).Nodup := by
    rw [map_fst_uses]
    exact numbered.1.sublist m.identifiers_sublist
  generalize m.uses = uses at here there nodup
  induction uses with
  | nil => cases here
  | cons use rest ih =>
    rw [map_cons, nodup_cons] at nodup
    rcases mem_cons.mp here with rfl | inRest <;>
      rcases mem_cons.mp there with same | inRest'
    · cases same
      rfl
    · exact absurd (mem_map.mpr ⟨_, inRest', rfl⟩) nodup.1
    · subst same
      exact absurd (mem_map.mpr ⟨_, inRest, rfl⟩) nodup.1
    · exact ih inRest inRest' nodup.2

theorem WellScoped.complete (wellScoped : m.WellScoped) : none ∉ m.entries := by
  intro missing
  obtain ⟨f, absurd, -⟩ := wellScoped none missing
  cases absurd

theorem WellScoped.uses (wellScoped : m.WellScoped) : ∀ use ∈ m.uses, use.2.isSome := by
  intro use member
  obtain ⟨entry, inModule, inEntry⟩ := mem_flatMap.mp member
  obtain ⟨f, rfl, bodyScoped⟩ := wellScoped entry inModule
  exact Stmt.WellScoped.uses bodyScoped use inEntry

theorem mem_declarations_of_uses (member : (u, some d) ∈ m.uses) : d ∈ m.declarations := by
  obtain ⟨entry, inModule, inEntry⟩ := mem_flatMap.mp member
  rw [declarations_eq]
  refine mem_flatMap.mpr ⟨entry, inModule, ?_⟩
  cases entry with
  | none => cases inEntry
  | some f => simpa [Env.ofFunction, Env.nodes] using mem_nodes_of_uses inEntry

end Module

end MiddleEnd
