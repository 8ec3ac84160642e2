import MiddleEnd.Proofs.Syntax.Nodes

/-!
Places in a function, counted in walk order. What a node encloses is an interval of places.
-/

namespace MiddleEnd

open List Visited

variable {q : Nat}

def Func.nodes (f : Func) : List Visited := f.walk fun _ => true

theorem Func.nodes_eq (f : Func) : f.nodes = .func f :: f.body.nodes := rfl

namespace Visited

def nodes : Visited → List Visited
  | .func f => f.nodes
  | .stmt s => s.nodes
  | .expr e => e.nodes

def opensScope : Visited → Bool
  | .func _ | .stmt (.block _ _) => true
  | _ => false

end Visited

theorem Expr.of_mem_nodes {e : Expr} (member : v ∈ e.nodes) : ∃ e', v = .expr e' := by
  induction e with
  | absent => cases member
  | unary node op operand ih =>
    rw [nodes_unary] at member
    rcases mem_cons.mp member with rfl | below
    · exact ⟨_, rfl⟩
    · exact ih below
  | binary node op left right leftIH rightIH =>
    rw [nodes_binary] at member
    rcases mem_cons.mp member with rfl | below
    · exact ⟨_, rfl⟩
    · exact (mem_append.mp below).elim leftIH rightIH
  | _ => exact ⟨_, mem_singleton.mp member⟩

theorem Stmt.nodes_cond_branches (node : Node) (test : Expr) (yes no : Stmt) :
    nodes (.cond node test yes no) =
      (.stmt (.cond node test yes no) :: test.nodes) ++ (yes.nodes ++ no.nodes) := by
  simp

theorem Stmt.nodes_loop_body (node : Node) (test : Expr) (body : Stmt) :
    nodes (.loop node test body) = (.stmt (.loop node test body) :: test.nodes) ++ body.nodes := by
  simp

namespace Places

/-- How many places the node at a place takes with the nodes below it. -/
def extent (nodes : List Visited) (i : Nat) : Nat :=
  nodes[i]?.elim 0 fun v => v.nodes.length

/-- The node at place `i` has the node at place `j` below it. -/
def Encloses (nodes : List Visited) (i j : Nat) : Prop := i < j ∧ j < i + extent nodes i

def Opens (nodes : List Visited) (i : Nat) : Prop := nodes[i]?.any opensScope = true

/-- The scope of a node is the innermost block or function around it. -/
def ScopeOf (nodes : List Visited) (q j : Nat) : Prop :=
  Opens nodes q ∧ Encloses nodes q j ∧
    ∀ other, other < j → Opens nodes other → Encloses nodes other j →
      other = q ∨ Encloses nodes other q

instance (nodes : List Visited) (i j : Nat) : Decidable (Encloses nodes i j) :=
  inferInstanceAs (Decidable (_ ∧ _))

instance (nodes : List Visited) (i : Nat) : Decidable (Opens nodes i) :=
  inferInstanceAs (Decidable (_ = _))

instance (nodes : List Visited) (q j : Nat) : Decidable (ScopeOf nodes q j) :=
  inferInstanceAs (Decidable (_ ∧ _ ∧ ∀ other, other < j → _))

variable {nodes : List Visited}

variable {v : Visited} {j p : Nat} {rest first second : List Visited}

theorem extent_eq (here : nodes[i]? = some v) : extent nodes i = v.nodes.length := by
  simp [extent, here]

theorem ScopeOf.unique (first : ScopeOf nodes q j) (second : ScopeOf nodes q' j) : q = q' := by
  obtain ⟨opens, encloses, inner⟩ := first
  obtain ⟨opens', encloses', inner'⟩ := second
  rcases inner q' encloses'.1 opens' encloses' with same | around
  · exact same.symm
  · rcases inner' q encloses.1 opens encloses with same | around'
    · exact same
    · exact absurd around.1 (Nat.lt_asymm around'.1)

/-- These nodes stand at place `p` and behind. -/
def Occurs (nodes : List Visited) (p : Nat) (part : List Visited) : Prop :=
  ∀ k v, part[k]? = some v → nodes[p + k]? = some v

theorem Occurs.head (occurs : Occurs nodes p (v :: rest)) : nodes[p]? = some v :=
  occurs 0 v rfl

theorem Occurs.tail (occurs : Occurs nodes p (v :: rest)) : Occurs nodes (p + 1) rest := by
  intro k w found
  have here := occurs (k + 1) w (by simpa using found)
  rwa [show p + 1 + k = p + (k + 1) by omega]

theorem Occurs.left (occurs : Occurs nodes p (first ++ second)) : Occurs nodes p first := by
  intro k v found
  refine occurs k v ?_
  rw [List.getElem?_append_left (List.getElem?_eq_some_iff.mp found).1, found]

theorem Occurs.right (occurs : Occurs nodes p (first ++ second)) :
    Occurs nodes (p + first.length) second := by
  intro k v found
  have here := occurs (first.length + k) v (by
    rw [List.getElem?_append_right (Nat.le_add_right _ _), Nat.add_sub_cancel_left, found])
  rwa [Nat.add_assoc]

theorem Occurs.of_lt {part : List Visited} (occurs : Occurs nodes p part) (behind : p ≤ j)
    (before : j < p + part.length) : ∃ v ∈ part, part[j - p]? = some v ∧ nodes[j]? = some v := by
  have bound : j - p < part.length := by omega
  have found := List.getElem?_eq_getElem bound
  refine ⟨part[j - p], getElem_mem bound, found, ?_⟩
  have here := occurs _ _ found
  rwa [show p + (j - p) = j by omega] at here

theorem Occurs.extent_whole (occurs : Occurs nodes p (v :: rest)) (whole : v.nodes = v :: rest) :
    extent nodes p = rest.length + 1 := by
  rw [extent_eq occurs.head, whole, length_cons]

/-- No node has nodes below it past the last one. -/
def Contained (part : List Visited) : Prop :=
  ∀ k v, part[k]? = some v → k + v.nodes.length ≤ part.length

theorem contained_nil : Contained [] := by
  intro k v found
  cases found

theorem Contained.cons {v : Visited} {rest : List Visited} (fits : v.nodes.length ≤ rest.length + 1)
    (contained : Contained rest) : Contained (v :: rest) := by
  intro k w found
  cases k with
  | zero =>
    cases found
    simpa using fits
  | succ k =>
    have bound := contained k w (by simpa using found)
    rw [length_cons]
    omega

theorem Contained.append (contained : Contained first) (contained' : Contained second) :
    Contained (first ++ second) := by
  intro k v found
  rw [length_append]
  by_cases before : k < first.length
  · rw [List.getElem?_append_left before] at found
    have bound := contained k v found
    omega
  · rw [List.getElem?_append_right (Nat.le_of_not_lt before)] at found
    have bound := contained' _ v found
    omega

theorem contained_expr (e : Expr) : Contained e.nodes := by
  induction e with
  | absent => exact contained_nil
  | unary node op operand ih =>
    rw [Expr.nodes_unary]
    exact ih.cons (by simp [nodes])
  | binary node op left right leftIH rightIH =>
    rw [Expr.nodes_binary]
    exact (leftIH.append rightIH).cons (by simp [nodes])
  | _ => exact contained_nil.cons (Nat.le_refl _)

theorem contained_list (each : ∀ s ∈ stmts, Contained s.nodes) :
    Contained (Stmt.nodesOfList stmts) := by
  induction stmts with
  | nil =>
    rw [Stmt.nodesOfList_nil]
    exact contained_nil
  | cons s rest ih =>
    rw [Stmt.nodesOfList_cons]
    exact (each s (by simp)).append (ih fun s member => each s (by simp [member]))

theorem contained_stmt (s : Stmt) : Contained s.nodes := by
  induction s using Stmt.induction with
  | absent =>
    rw [Stmt.nodes_absent]
    exact contained_nil
  | bare node =>
    rw [Stmt.nodes_bare]
    exact contained_nil.cons (by simp [nodes])
  | block node stmts each =>
    rw [Stmt.nodes_block]
    exact (contained_list each).cons (by simp [nodes])
  | decl node mutable name type value =>
    rw [Stmt.nodes_decl]
    exact (contained_expr value).cons (by simp [nodes])
  | assign node target value =>
    rw [Stmt.nodes_assign]
    exact ((contained_expr target).append (contained_expr value)).cons (by simp [nodes])
  | ret node value =>
    rw [Stmt.nodes_ret]
    exact (contained_expr value).cons (by simp [nodes])
  | cond node test yes no yesIH noIH =>
    rw [Stmt.nodes_cond]
    exact (((contained_expr test).append yesIH).append noIH).cons (by simp [nodes])
  | loop node test body bodyIH =>
    rw [Stmt.nodes_loop]
    exact ((contained_expr test).append bodyIH).cons (by simp [nodes])
  | unknown node kind =>
    rw [Stmt.nodes_unknown]
    exact contained_nil.cons (by simp [nodes])

theorem Occurs.extent_le (occurs : Occurs nodes p part) (contained : Contained part)
    (behind : p ≤ j) (before : j < p + part.length) : j + extent nodes j ≤ p + part.length := by
  obtain ⟨v, -, found, here⟩ := occurs.of_lt behind before
  have bound := contained _ v found
  rw [extent_eq here]
  omega

/-- Scopes that were opened before place `p` enclose either all of the next `n` places, if they are
listed, or none of them. -/
structure Region (nodes : List Visited) (scopes : List Nat) (p n : Nat) : Prop where
  opened : ∀ q ∈ scopes, q < p ∧ Opens nodes q
  nested : scopes.Pairwise fun inner outer => Encloses nodes outer inner
  covers : ∀ q, q < p → Opens nodes q → ∀ j, p ≤ j → j < p + n →
    (Encloses nodes q j ↔ q ∈ scopes)

namespace Region

variable {scopes : List Nat} {p n : Nat}

theorem mono (region : Region nodes scopes p n) (fewer : m ≤ n) : Region nodes scopes p m where
  opened := region.opened
  nested := region.nested
  covers q before opens j behind within := region.covers q before opens j behind (by omega)

theorem advance (region : Region nodes scopes p (m + n))
    (closes : ∀ q, p ≤ q → q < p + m → Opens nodes q → q + extent nodes q ≤ p + m) :
    Region nodes scopes (p + m) n where
  opened q member := by
    obtain ⟨before, opens⟩ := region.opened q member
    exact ⟨by omega, opens⟩
  nested := region.nested
  covers q before opens j behind within := by
    by_cases earlier : q < p
    · exact region.covers q earlier opens j (by omega) (by omega)
    · have ends := closes q (Nat.le_of_not_lt earlier) before opens
      constructor
      · intro encloses
        have inside := encloses.2
        omega
      · intro member
        exact absurd (region.opened q member).1 earlier

theorem enter (region : Region nodes scopes p (n + 1)) (opens : Opens nodes p)
    (whole : extent nodes p = n + 1) : Region nodes (p :: scopes) (p + 1) n where
  opened q member := by
    rcases mem_cons.mp member with rfl | outer
    · exact ⟨Nat.lt_succ_self q, opens⟩
    · obtain ⟨before, opens'⟩ := region.opened q outer
      exact ⟨by omega, opens'⟩
  nested := by
    refine pairwise_cons.mpr ⟨fun outer member => ?_, region.nested⟩
    obtain ⟨before, opens'⟩ := region.opened outer member
    exact (region.covers outer before opens' p (Nat.le_refl p) (by omega)).mpr member
  covers q before opens' j behind within := by
    rw [mem_cons]
    by_cases same : q = p
    · subst same
      exact ⟨fun _ => .inl rfl, fun _ => ⟨by omega, by omega⟩⟩
    · rw [region.covers q (by omega) opens' j (by omega) (by omega)]
      exact ⟨.inr, fun either => either.resolve_left same⟩

theorem encloses_iff (region : Region nodes scopes p n) (behind : p ≤ u) (within : u < p + n)
    (closed : ∀ i, p ≤ i → i < u → ¬ Opens nodes i) (opens : Opens nodes q) :
    Encloses nodes q u ↔ q ∈ scopes := by
  by_cases earlier : q < p
  · exact region.covers q earlier opens u behind within
  · constructor
    · intro encloses
      exact absurd opens (closed q (Nat.le_of_not_lt earlier) encloses.1)
    · intro member
      exact absurd (region.opened q member).1 earlier

theorem scopeOf (region : Region nodes (top :: outer) p n) (behind : p ≤ u) (within : u < p + n)
    (closed : ∀ i, p ≤ i → i < u → ¬ Opens nodes i) : ScopeOf nodes top u := by
  obtain ⟨before, opens⟩ := region.opened top mem_cons_self
  refine ⟨opens, (region.covers top before opens u behind within).mpr mem_cons_self, ?_⟩
  intro other _ opens' encloses
  have member := (region.encloses_iff behind within closed opens').mp encloses
  rcases mem_cons.mp member with same | around
  · exact .inl same
  · exact .inr ((pairwise_cons.mp region.nested).1 other around)

theorem scopeOf_start (region : Region nodes (top :: outer) p n) (some : 0 < n) :
    ScopeOf nodes top p :=
  region.scopeOf (Nat.le_refl p) (by omega) fun i later before => by omega

end Region

theorem ScopeOf.le_of_encloses (scope : ScopeOf nodes q j) (opens : Opens nodes p)
    (encloses : Encloses nodes p j) : p ≤ q := by
  rcases scope.2.2 p encloses.1 opens encloses with same | around
  · exact Nat.le_of_eq same
  · exact Nat.le_of_lt around.1

theorem region_function (f : Func) : Region f.nodes [0] 1 f.body.nodes.length where
  opened q member := by
    cases mem_singleton.mp member
    exact ⟨Nat.one_pos, rfl⟩
  nested := pairwise_singleton _ _
  covers q before _ j behind within := by
    obtain rfl : q = 0 := by omega
    have whole : extent f.nodes 0 = f.body.nodes.length + 1 := by
      rw [extent_eq (v := .func f) rfl, nodes, f.nodes_eq, length_cons]
    exact ⟨fun _ => mem_singleton.mpr rfl, fun _ => ⟨by omega, by omega⟩⟩

theorem occurs_function (f : Func) : Occurs f.nodes 1 f.body.nodes := by
  have whole : Occurs f.nodes 0 (.func f :: f.body.nodes) := by
    intro k v found
    rwa [Nat.zero_add]
  exact whole.tail

end Places

end MiddleEnd
