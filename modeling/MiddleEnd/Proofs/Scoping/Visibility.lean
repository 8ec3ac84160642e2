import MiddleEnd.Proofs.Scoping.Lexical
import MiddleEnd.Proofs.Syntax.Places
import MiddleEnd.Scoping.Table

/-!
Visibility by place. A declaration is visible where its scope reaches and its whole statement has
gone by.
-/

namespace MiddleEnd

open Scoping List Option

variable {q p' : Nat} {e : Expr}

/-- What a declaration declares, without storage. -/
def Visited.binding? : Visited → Option Binding
  | .stmt (.decl _ mutable name type _) => some ⟨name, mutable, type, Ir.noId⟩
  | _ => none

namespace Places

def declared? (nodes : List Visited) (d : Nat) : Option Binding :=
  nodes[d]?.bind Visited.binding?

/-- The declaration at place `d` declares the name in scope `q`, and its whole statement precedes
place `u`. -/
def Ready (nodes : List Visited) (q : Nat) (name : Text) (u d : Nat) : Prop :=
  ScopeOf nodes q d ∧ (∃ b, declared? nodes d = some b ∧ b.name = name) ∧ d + extent nodes d ≤ u

def Visible (nodes : List Visited) (name : Text) (u d : Nat) : Prop :=
  ∃ q, Encloses nodes q u ∧ Ready nodes q name u d

/-- Of all declarations of the name that are visible at place `u`, the one at place `d` is the first
in the innermost scope. -/
def Means (nodes : List Visited) (name : Text) (u d : Nat) : Prop :=
  ∃ q, Encloses nodes q u ∧ Ready nodes q name u d ∧
    ∀ q' e, Encloses nodes q' u → Ready nodes q' name u e → q' = q ∧ d ≤ e ∨ Encloses nodes q' q

def isTarget (nodes : List Visited) : Nat → Bool
  | 0 => false
  | a + 1 =>
    match nodes[a]? with
    | some (.stmt (.assign _ target _)) => !target.isAbsent
    | _ => false

/-- The rules of scoping for the nodes of one function. -/
structure LexicallyScoped (nodes : List Visited) : Prop where
  declaredOnce : ∀ q d e b b', ScopeOf nodes q d → ScopeOf nodes q e →
    declared? nodes d = some b → declared? nodes e = some b' → b.name = b'.name → ¬ d < e
  resolved : ∀ (u : Nat) node name, nodes[u]? = some (.expr (.ident node name)) →
    isTarget nodes u = false → ∃ d, Visible nodes name u d
  named : ∀ (a : Nat) node target value, nodes[a]? = some (.stmt (.assign node target value)) →
    target ≠ .absent → ∃ node' name, target = .ident node' name
  assignable : ∀ (a : Nat) node node' name value,
    nodes[a]? = some (.stmt (.assign node (.ident node' name) value)) →
    ∃ d b, Means nodes name (a + 1) d ∧ declared? nodes d = some b ∧ b.mutable = true

variable {nodes : List Visited}

variable {d p : Nat} {v : Visited} {name : Text} {scopes : List Nat} {env : Env}

theorem declared?_eq (here : nodes[d]? = some v) : declared? nodes d = v.binding? := by
  simp [declared?, here]

theorem extent_pos (declared : declared? nodes d = some b) : 0 < extent nodes d := by
  obtain ⟨v, here, binding⟩ := bind_eq_some_iff.mp declared
  unfold Visited.binding? at binding
  split at binding
  · simp [extent_eq here, Visited.nodes]
  · cases binding

theorem Ready.lt (ready : Ready nodes q name u d) : d < u := by
  obtain ⟨-, ⟨b, declared, -⟩, ends⟩ := ready
  have positive := extent_pos declared
  omega

theorem Means.unique (first : Means nodes name u d) (second : Means nodes name u d') : d = d' := by
  obtain ⟨q, encloses, ready, least⟩ := first
  obtain ⟨q', encloses', ready', least'⟩ := second
  have here := least q' d' encloses' ready'
  have there := least' q d encloses ready
  rcases here with ⟨same, before⟩ | around
  · rcases there with ⟨-, before'⟩ | around'
    · exact Nat.le_antisymm before before'
    · exact absurd around'.1 (by omega)
  · rcases there with ⟨same, -⟩ | around'
    · exact absurd around.1 (by omega)
    · exact absurd around.1 (Nat.lt_asymm around'.1)

/-- What the rules ask of the node at one place. -/
def Respects (nodes : List Visited) (u : Nat) : Visited → Prop
  | .stmt (.decl _ _ name _ _) => ∀ q d b, ScopeOf nodes q u → ScopeOf nodes q d →
      declared? nodes d = some b → b.name = name → ¬ d < u
  | .stmt (.assign _ .absent _) => True
  | .stmt (.assign _ (.ident _ name) _) =>
    ∃ d b, Means nodes name (u + 1) d ∧ declared? nodes d = some b ∧ b.mutable = true
  | .stmt (.assign _ _ _) => False
  | .expr (.ident _ name) => isTarget nodes u = false → ∃ d, Visible nodes name u d
  | _ => True

def RespectsAll (nodes : List Visited) (p : Nat) (part : List Visited) : Prop :=
  ∀ k v, part[k]? = some v → Respects nodes (p + k) v

theorem respectsAll_nil (p : Nat) : RespectsAll nodes p [] := by
  intro k v found
  cases found

theorem respectsAll_cons :
    RespectsAll nodes p (v :: rest) ↔ Respects nodes p v ∧ RespectsAll nodes (p + 1) rest := by
  constructor
  · intro all
    refine ⟨all 0 v rfl, fun k w found => ?_⟩
    rw [show p + 1 + k = p + (k + 1) by omega]
    exact all (k + 1) w (by simpa using found)
  · rintro ⟨head, tail⟩ k w found
    cases k with
    | zero =>
      cases found
      exact head
    | succ k =>
      rw [show p + (k + 1) = p + 1 + k by omega]
      exact tail k w (by simpa using found)

theorem respectsAll_append :
    RespectsAll nodes p (first ++ second) ↔
      RespectsAll nodes p first ∧ RespectsAll nodes (p + first.length) second := by
  induction first generalizing p with
  | nil => simp [respectsAll_nil]
  | cons v rest ih =>
    rw [cons_append, respectsAll_cons, respectsAll_cons, ih, and_assoc, length_cons,
      show p + (rest.length + 1) = p + 1 + rest.length by omega]

theorem lexicallyScoped_iff : LexicallyScoped nodes ↔ RespectsAll nodes 0 nodes := by
  constructor
  · intro rules u v here
    rw [Nat.zero_add]
    unfold Respects
    split
    · next node mutable name type value =>
      intro q d b scope scope' declared named
      exact rules.declaredOnce q d u b _ scope' scope declared (declared?_eq here) named
    · trivial
    · next node node' name value => exact rules.assignable u node node' name value here
    · next node target value notAbsent notIdent =>
      obtain ⟨node', name, same⟩ := rules.named u node target value here fun absent =>
        notAbsent absent
      exact notIdent node' name same
    · next node name => exact rules.resolved u node name here
    · trivial
  · intro all
    have each : ∀ u v, nodes[u]? = some v → Respects nodes u v := by
      intro u v here
      have respects := all u v here
      rwa [Nat.zero_add] at respects
    constructor
    case declaredOnce =>
      intro q d e b b' scope scope' declared declared' same
      obtain ⟨v, here, binding⟩ := bind_eq_some_iff.mp declared'
      have respects := each e v here
      unfold Visited.binding? at binding
      split at binding
      · cases binding
        exact respects q d b scope' scope declared same
      · cases binding
    case resolved =>
      intro u node name here
      exact each u _ here
    case named =>
      intro a node target value here present
      have respects := each a _ here
      cases target with
      | absent => exact absurd rfl present
      | ident node' name => exact ⟨node', name, rfl⟩
      | _ => exact respects.elim
    case assignable =>
      intro a node node' name value here
      exact each a _ here

/-- The names are the declarations of a scope whose statements precede place `p`; of several with
one name, the first. -/
structure ShowsNames (nodes : List Visited) (q p : Nat) (names : List (Text × Declared)) :
    Prop where
  shown : ∀ name x, names.lookup name = some x → ∃ d b, Ready nodes q name p d ∧
    (∀ e, Ready nodes q name p e → d ≤ e) ∧ declared? nodes d = some b ∧ b.mutable = x.mutable
  hidden : ∀ name, names.lookup name = none → ∀ d, ¬ Ready nodes q name p d

/-- The environment shows the open scopes, inside the scope of the module, which has no names. -/
def Shows (nodes : List Visited) (p : Nat) : List Nat → Env → Prop
  | [], env => env = [[]]
  | q :: outer, names :: env => ShowsNames nodes q p names ∧ Shows nodes p outer env
  | _ :: _, [] => False

theorem ShowsNames.congr (shows' : ShowsNames nodes q p names)
    (same : ∀ name d, Ready nodes q name p' d ↔ Ready nodes q name p d) :
    ShowsNames nodes q p' names where
  shown name x found := by
    obtain ⟨d, b, ready, least, declared, mutability⟩ := shows'.shown name x found
    exact ⟨d, b, (same name d).mpr ready, fun e ready' => least e ((same name e).mp ready'),
      declared, mutability⟩
  hidden name missing d ready := shows'.hidden name missing d ((same name d).mp ready)

theorem Shows.congr (shows' : Shows nodes p scopes env)
    (same : ∀ q ∈ scopes, ∀ name d, Ready nodes q name p' d ↔ Ready nodes q name p d) :
    Shows nodes p' scopes env := by
  induction scopes generalizing env with
  | nil => exact shows'
  | cons q outer ih =>
    cases env with
    | nil => exact shows'.elim
    | cons names env =>
      exact ⟨shows'.1.congr (same q mem_cons_self),
        ih shows'.2 fun q member => same q (mem_cons_of_mem _ member)⟩

theorem Shows.find?_none (shows' : Shows nodes p scopes env) (meaningless : env.find? name = none) :
    ∀ q ∈ scopes, ∀ d, ¬ Ready nodes q name p d := by
  induction scopes generalizing env with
  | nil =>
    intro q member
    cases member
  | cons q outer ih =>
    cases env with
    | nil => exact shows'.elim
    | cons names env =>
      rw [Env.find?_cons, or_eq_none_iff] at meaningless
      intro q' member
      rcases mem_cons.mp member with rfl | further
      · exact shows'.1.hidden name meaningless.1
      · exact ih shows'.2 meaningless.2 q' further

theorem Shows.find?_some (shows' : Shows nodes p scopes env)
    (nested : scopes.Pairwise fun inner outer => Encloses nodes outer inner)
    (means : env.find? name = some x) :
    ∃ q ∈ scopes, ∃ d b, Ready nodes q name p d ∧ declared? nodes d = some b ∧
      b.mutable = x.mutable ∧ ∀ q' ∈ scopes, ∀ e, Ready nodes q' name p e →
        q' = q ∧ d ≤ e ∨ Encloses nodes q' q := by
  induction scopes generalizing env with
  | nil =>
    cases shows'
    cases means
  | cons q outer ih =>
    cases env with
    | nil => exact shows'.elim
    | cons names env =>
      obtain ⟨around, nested⟩ := pairwise_cons.mp nested
      rw [Env.find?_cons] at means
      cases found : names.lookup name with
      | some y =>
        rw [found, some_or] at means
        cases means
        obtain ⟨d, b, ready, least, declared, mutability⟩ := shows'.1.shown name x found
        refine ⟨q, mem_cons_self, d, b, ready, declared, mutability, ?_⟩
        intro q' member e ready'
        rcases mem_cons.mp member with rfl | further
        · exact .inl ⟨rfl, least e ready'⟩
        · exact .inr (around q' further)
      | none =>
        rw [found, none_or] at means
        obtain ⟨q₀, member₀, d, b, ready, declared, mutability, least⟩ :=
          ih shows'.2 nested means
        refine ⟨q₀, mem_cons_of_mem _ member₀, d, b, ready, declared, mutability, ?_⟩
        intro q' member e ready'
        rcases mem_cons.mp member with rfl | further
        · exact absurd ready' (shows'.1.hidden name found e)
        · exact least q' further e ready'

/-- At place `u` exactly these scopes are around, and the environment shows what is visible. -/
structure Sees (nodes : List Visited) (scopes : List Nat) (env : Env) (u : Nat) : Prop where
  around : ∀ q, Opens nodes q → (Encloses nodes q u ↔ q ∈ scopes)
  opened : ∀ q ∈ scopes, Opens nodes q
  nested : scopes.Pairwise fun inner outer => Encloses nodes outer inner
  names : Shows nodes u scopes env

namespace Sees

variable {scopes : List Nat} {env : Env} {u : Nat}

theorem means (sees : Sees nodes scopes env u) (found : env.find? name = some x) :
    ∃ d b, Means nodes name u d ∧ declared? nodes d = some b ∧ b.mutable = x.mutable := by
  obtain ⟨q, member, d, b, ready, declared, mutability, least⟩ :=
    sees.names.find?_some sees.nested found
  refine ⟨d, b, ⟨q, (sees.around q (sees.opened q member)).mpr member, ready, ?_⟩, declared,
    mutability⟩
  intro q' e encloses ready'
  exact least q' ((sees.around q' ready'.1.1).mp encloses) e ready'

theorem visible_iff (sees : Sees nodes scopes env u) (name : Text) :
    (∃ d, Visible nodes name u d) ↔ (env.find? name).isSome := by
  cases found : env.find? name with
  | some x =>
    obtain ⟨d, b, ⟨q, encloses, ready, -⟩, -⟩ := sees.means found
    simp only [isSome_some, iff_true]
    exact ⟨d, q, encloses, ready⟩
  | none =>
    simp only [isSome_none, Bool.false_eq_true, iff_false]
    rintro ⟨d, q, encloses, ready⟩
    exact sees.names.find?_none found q ((sees.around q ready.1.1).mp encloses) d ready

theorem mutable_iff (sees : Sees nodes scopes env u) (name : Text) :
    (∃ d b, Means nodes name u d ∧ declared? nodes d = some b ∧ b.mutable = true) ↔
      ∃ x, env.find? name = some x ∧ x.mutable = true := by
  constructor
  · rintro ⟨d, b, here, declared, isMutable⟩
    have visible : Visible nodes name u d := by
      obtain ⟨q, encloses, ready, -⟩ := here
      exact ⟨q, encloses, ready⟩
    obtain ⟨x, found⟩ := isSome_iff_exists.mp ((sees.visible_iff name).mp ⟨d, visible⟩)
    obtain ⟨d', b', here', declared', mutability⟩ := sees.means found
    cases here.unique here'
    cases declared.symm.trans declared'
    exact ⟨x, found, mutability ▸ isMutable⟩
  · rintro ⟨x, found, isMutable⟩
    obtain ⟨d, b, here, declared, mutability⟩ := sees.means found
    exact ⟨d, b, here, declared, mutability.trans isMutable⟩

end Sees

/-- Between two statements: the open scopes reach over the next `n` places, every declaration so far
is complete, and the environment shows them. -/
structure Stands (nodes : List Visited) (scopes : List Nat) (env : Env) (p n : Nat) : Prop where
  region : Region nodes scopes p n
  settled : ∀ d b, d < p → declared? nodes d = some b → d + extent nodes d ≤ p
  names : Shows nodes p scopes env

/-- Nodes that neither declare a name nor open a scope. -/
def Quiet (part : List Visited) : Prop :=
  ∀ v ∈ part, v.binding? = none ∧ v.opensScope = false

theorem quiet_expr (e : Expr) : Quiet e.nodes := by
  intro v member
  obtain ⟨e', rfl⟩ := Expr.of_mem_nodes member
  exact ⟨rfl, rfl⟩

theorem Quiet.append (quiet : Quiet first) (quiet' : Quiet second) :
    Quiet (first ++ second) := fun v member =>
  (mem_append.mp member).elim (quiet v) (quiet' v)

theorem Quiet.cons {v : Visited} {rest : List Visited} (undeclared : v.binding? = none)
    (closed : v.opensScope = false) (quiet : Quiet rest) : Quiet (v :: rest) := by
  intro w member
  rcases mem_cons.mp member with rfl | behind
  · exact ⟨undeclared, closed⟩
  · exact quiet w behind

theorem Occurs.closed (occurs : Occurs nodes p part) (closed : ∀ v ∈ part, v.opensScope = false)
    (behind : p ≤ i) (before : i < p + part.length) : ¬ Opens nodes i := by
  obtain ⟨v, member, -, here⟩ := occurs.of_lt behind before
  simp [Opens, here, closed v member]

theorem Occurs.undeclared (occurs : Occurs nodes p part) (quiet : Quiet part) (behind : p ≤ d)
    (before : d < p + part.length) : declared? nodes d = none := by
  obtain ⟨v, member, -, here⟩ := occurs.of_lt behind before
  rw [declared?_eq here, (quiet v member).1]

namespace Stands

variable {scopes : List Nat} {env : Env} {p n : Nat}

theorem mono (stands : Stands nodes scopes env p n) (fewer : m ≤ n) : Stands nodes scopes env p m :=
  ⟨stands.region.mono fewer, stands.settled, stands.names⟩

theorem ready_iff (stands : Stands nodes scopes env p n) (later : p ≤ p')
    (nothing : ∀ d b, p ≤ d → d + extent nodes d ≤ p' → ScopeOf nodes q d →
      declared? nodes d ≠ some b) (name : Text) (d : Nat) :
    Ready nodes q name p' d ↔ Ready nodes q name p d := by
  constructor
  · rintro ⟨scope, ⟨b, declared, named⟩, ends⟩
    by_cases earlier : d < p
    · exact ⟨scope, ⟨b, declared, named⟩, stands.settled d b earlier declared⟩
    · exact absurd declared (nothing d b (Nat.le_of_not_lt earlier) ends scope)
  · rintro ⟨scope, declared, ends⟩
    exact ⟨scope, declared, by omega⟩

theorem sees (stands : Stands nodes scopes env p n) (behind : p ≤ u) (within : u < p + n)
    (closed : ∀ i, p ≤ i → i < u → ¬ Opens nodes i)
    (nothing : ∀ d b, p ≤ d → d + extent nodes d ≤ u → declared? nodes d ≠ some b) :
    Sees nodes scopes env u where
  around _ opens := stands.region.encloses_iff behind within closed opens
  opened q member := (stands.region.opened q member).2
  nested := stands.region.nested
  names := stands.names.congr fun _ _ => stands.ready_iff behind fun d b later ends _ =>
    nothing d b later ends

variable {part : List Visited}

theorem after (stands : Stands nodes scopes env p (part.length + n)) (occurs : Occurs nodes p part)
    (contained : Contained part) (names : Shows nodes (p + part.length) scopes env') :
    Stands nodes scopes env' (p + part.length) n where
  region := stands.region.advance fun _ later before _ =>
    occurs.extent_le contained later before
  settled d b before declared := by
    by_cases earlier : d < p
    · have ends := stands.settled d b earlier declared
      omega
    · exact occurs.extent_le contained (Nat.le_of_not_lt earlier) before
  names := names

theorem names_quiet (stands : Stands nodes scopes env p n) (occurs : Occurs nodes p part)
    (quiet : Quiet part) : Shows nodes (p + part.length) scopes env := by
  refine stands.names.congr fun _ _ => stands.ready_iff (by omega) ?_
  intro d b later ends _ declared
  have positive := extent_pos declared
  rw [occurs.undeclared quiet later (by omega)] at declared
  cases declared

theorem skip (stands : Stands nodes scopes env p (part.length + n)) (occurs : Occurs nodes p part)
    (quiet : Quiet part) : Stands nodes scopes env (p + part.length) n where
  region := stands.region.advance fun _ later before opens =>
    absurd opens (occurs.closed (fun v member => (quiet v member).2) later before)
  settled d b before declared := by
    by_cases earlier : d < p
    · have ends := stands.settled d b earlier declared
      omega
    · rw [occurs.undeclared quiet (Nat.le_of_not_lt earlier) before] at declared
      cases declared
  names := stands.names_quiet occurs quiet

theorem sees_quiet (stands : Stands nodes scopes env p n) (occurs : Occurs nodes p part)
    (quiet : Quiet part) (behind : p ≤ u) (within : u < p + n) (reached : u ≤ p + part.length) :
    Sees nodes scopes env u := by
  refine stands.sees behind within (fun i later before => ?_) fun d b later ends declared => ?_
  · exact occurs.closed (fun v member => (quiet v member).2) later (by omega)
  · have positive := extent_pos declared
    rw [occurs.undeclared quiet later (by omega)] at declared
    cases declared

theorem enter (stands : Stands nodes scopes env p (n + 1)) {v : Visited} (here : nodes[p]? = some v)
    (opens : v.opensScope = true) (undeclared : v.binding? = none)
    (whole : v.nodes.length = n + 1) : Stands nodes (p :: scopes) ([] :: env) (p + 1) n where
  region := stands.region.enter (by simp [Opens, here, opens]) (by rw [extent_eq here, whole])
  settled d b before declared := by
    by_cases same : d = p
    · rw [same, declared?_eq here, undeclared] at declared
      cases declared
    · have ends := stands.settled d b (by omega) declared
      omega
  names := by
    constructor
    · refine ⟨fun name x found => (by cases found), fun name _ d ready => ?_⟩
      have behind := ready.1.2.1.1
      have before := ready.lt
      omega
    · refine stands.names.congr fun _ _ => stands.ready_iff (by omega) ?_
      intro d b later ends _ declared
      have positive := extent_pos declared
      obtain rfl : d = p := by omega
      rw [declared?_eq here, undeclared] at declared
      cases declared

end Stands

theorem isTarget_of_not_assign (here : nodes[p]? = some v)
    (other : ∀ node target value, v = .stmt (.assign node target value) → target = .absent) :
    isTarget nodes (p + 1) = false := by
  simp only [isTarget]
  split
  · next node target value found =>
    cases here.symm.trans found
    rw [other node target value rfl]
    rfl
  · rfl

end Places

theorem Expr.resolved_iff (env : Env) (e : Expr) :
    e.Resolved env ↔
      ∀ node name, .expr (.ident node name) ∈ e.nodes → (env.find? name).isSome := by
  induction e with
  | ident node name =>
    constructor
    · intro resolved node' name' member
      cases mem_singleton.mp member
      exact resolved
    · intro each
      exact each node name (mem_singleton.mpr rfl)
  | unary node op operand ih => simpa [Resolved] using ih
  | binary node op left right leftIH rightIH =>
    simp only [Resolved, leftIH, rightIH, nodes_binary, mem_cons, mem_append,
      reduceCtorEq, false_or, Visited.expr.injEq]
    constructor
    · rintro ⟨inLeft, inRight⟩ node name (member | member)
      · exact inLeft node name member
      · exact inRight node name member
    · intro each
      exact ⟨fun node name member => each node name (.inl member),
        fun node name member => each node name (.inr member)⟩
  | absent => simp [Resolved]
  | _ =>
    simp only [Resolved, true_iff]
    intro node name member
    cases mem_singleton.mp member

namespace Places

variable {p : Nat}

theorem Occurs.not_target (occurs : Occurs nodes p e.nodes) (value : isTarget nodes p = false)
    (bound : k < e.nodes.length) : isTarget nodes (p + k) = false := by
  cases k with
  | zero => exact value
  | succ k =>
    have found := List.getElem?_eq_getElem (Nat.lt_of_succ_lt bound)
    obtain ⟨e', same⟩ := Expr.of_mem_nodes (mem_of_getElem? found)
    rw [same] at found
    refine isTarget_of_not_assign (occurs k _ found) ?_
    intro node target value same
    cases same

theorem respectsAll_expr (scopes : List Nat) (occurs : Occurs nodes p e.nodes)
    (value : isTarget nodes p = false)
    (sees : ∀ u, p ≤ u → u < p + e.nodes.length → Sees nodes scopes env u) :
    RespectsAll nodes p e.nodes ↔ e.Resolved env := by
  rw [Expr.resolved_iff]
  constructor
  · intro all node name member
    obtain ⟨k, found⟩ := List.getElem?_of_mem member
    have bound := (List.getElem?_eq_some_iff.mp found).1
    have here := sees (p + k) (by omega) (by omega)
    exact (here.visible_iff name).mp (all k _ found (occurs.not_target value bound))
  · intro each k v found
    have bound := (List.getElem?_eq_some_iff.mp found).1
    have member := mem_of_getElem? found
    obtain ⟨e', rfl⟩ := Expr.of_mem_nodes member
    cases e' with
    | ident node name =>
      intro _
      exact ((sees (p + k) (by omega) (by omega)).visible_iff name).mpr (each node name member)
    | _ => trivial

namespace Stands

variable {top : Nat} {outer : List Nat} {env : Env} {p n : Nat}

theorem respectsAll_header (stands : Stands nodes (top :: outer) env p n)
    (occurs : Occurs nodes p (v :: e.nodes)) (undeclared : v.binding? = none)
    (closed : v.opensScope = false) (within : (v :: e.nodes).length ≤ n)
    (other : ∀ node target value, v = .stmt (.assign node target value) → target = .absent) :
    RespectsAll nodes (p + 1) e.nodes ↔ e.Resolved env := by
  rw [length_cons] at within
  refine respectsAll_expr (top :: outer) occurs.tail
    (isTarget_of_not_assign occurs.head other) ?_
  intro u behind before
  exact stands.sees_quiet occurs ((quiet_expr e).cons undeclared closed) (by omega) (by omega)
    (by rw [length_cons]; omega)

section Declaration

variable {node : Node} {mutable : Bool} {name : Text} {type : Ty} {value : Expr}

theorem ready_decl (stands : Stands nodes (top :: outer) env p n)
    (occurs : Occurs nodes p (.stmt (.decl node mutable name type value) :: value.nodes))
    (within : value.nodes.length < n) (q : Nat) (name' : Text) (d : Nat) :
    Ready nodes q name' (p + (value.nodes.length + 1)) d ↔
      Ready nodes q name' p d ∨ q = top ∧ name' = name ∧ d = p := by
  have scope : ScopeOf nodes top p := stands.region.scopeOf_start (by omega)
  have whole := occurs.extent_whole (by simp [Visited.nodes])
  constructor
  · rintro ⟨scope', ⟨b, declared, named⟩, ends⟩
    rcases Nat.lt_trichotomy d p with earlier | rfl | later
    · exact .inl ⟨scope', ⟨b, declared, named⟩, stands.settled d b earlier declared⟩
    · rw [declared?_eq occurs.head] at declared
      cases declared
      exact .inr ⟨scope'.unique scope, named.symm, rfl⟩
    · have positive := extent_pos declared
      rw [occurs.tail.undeclared (quiet_expr value) later (by omega)] at declared
      cases declared
  · rintro (⟨scope', declared, ends⟩ | ⟨rfl, rfl, rfl⟩)
    · exact ⟨scope', declared, by omega⟩
    · exact ⟨scope, ⟨_, declared?_eq occurs.head, rfl⟩, by omega⟩

theorem names_decl (stands : Stands nodes (top :: outer) env p n)
    (occurs : Occurs nodes p (.stmt (.decl node mutable name type value) :: value.nodes))
    (within : value.nodes.length < n) :
    Shows nodes (p + (value.nodes.length + 1)) (top :: outer)
      (env.declare name ⟨node.id, mutable⟩) := by
  have ready := stands.ready_decl occurs within
  have names := stands.names
  cases env with
  | nil => exact names.elim
  | cons inner env =>
    obtain ⟨shown, others⟩ := names
    have others' : Shows nodes (p + (value.nodes.length + 1)) outer env := by
      refine others.congr fun q member name' d => ?_
      have further := ((pairwise_cons.mp stands.region.nested).1 q member).1
      rw [ready]
      exact ⟨fun either => either.resolve_right fun new => by omega, .inl⟩
    cases found : inner.lookup name with
    | some x =>
      simp only [Env.declare, Env.declares, found, isSome_some, if_true]
      refine ⟨⟨fun name' x' found' => ?_, fun name' missing d readyNow => ?_⟩, others'⟩
      · obtain ⟨d, b, readyThen, least, declared, mutability⟩ := shown.shown name' x' found'
        refine ⟨d, b, (ready ..).mpr (.inl readyThen), fun e readyNow => ?_, declared,
          mutability⟩
        rcases (ready ..).mp readyNow with before | ⟨-, -, rfl⟩
        · exact least e before
        · exact Nat.le_of_lt readyThen.lt
      · rcases (ready ..).mp readyNow with before | ⟨-, rfl, -⟩
        · exact shown.hidden name' missing d before
        · rw [found] at missing
          cases missing
    | none =>
      simp only [Env.declare, Env.declares, found, isSome_none, Bool.false_eq_true, if_false]
      refine ⟨⟨fun name' x' found' => ?_, fun name' missing d readyNow => ?_⟩, others'⟩
      · rw [lookup_cons] at found'
        split at found'
        · next same =>
          cases found'
          cases eq_of_beq same
          refine ⟨p, _, (ready ..).mpr (.inr ⟨rfl, rfl, rfl⟩), fun e readyNow => ?_,
            declared?_eq occurs.head, rfl⟩
          rcases (ready ..).mp readyNow with before | ⟨-, -, rfl⟩
          · exact absurd before (shown.hidden _ found e)
          · exact Nat.le_refl e
        · next other =>
          obtain ⟨d, b, readyThen, least, declared, mutability⟩ :=
            shown.shown name' x' found'
          refine ⟨d, b, (ready ..).mpr (.inl readyThen), fun e readyNow => ?_, declared,
            mutability⟩
          rcases (ready ..).mp readyNow with before | ⟨-, same, -⟩
          · exact least e before
          · exact absurd same (ne_of_beq_false other)
      · rw [lookup_cons] at missing
        split at missing
        · cases missing
        · next other =>
          rcases (ready ..).mp readyNow with before | ⟨-, same, -⟩
          · exact shown.hidden name' missing d before
          · exact ne_of_beq_false other same

theorem respects_decl (stands : Stands nodes (top :: outer) env p n) (within : 0 < n) :
    Respects nodes p (.stmt (.decl node mutable name type value)) ↔
      env.declares name = false := by
  have scope : ScopeOf nodes top p := stands.region.scopeOf_start (by omega)
  have names := stands.names
  cases env with
  | nil => exact names.elim
  | cons inner env =>
    simp only [Respects, Env.declares]
    cases found : inner.lookup name with
    | some x =>
      simp only [isSome_some, Bool.true_eq_false, iff_false]
      obtain ⟨d, -, ready, -⟩ := names.1.shown name x found
      have before := ready.lt
      obtain ⟨scope', ⟨b, declared, named⟩, -⟩ := ready
      exact fun all => all top d b scope scope' declared named before
    | none =>
      simp only [isSome_none, iff_true]
      intro q d b scope' scopeD declared named before
      cases scope'.unique scope
      exact names.1.hidden name found d
        ⟨scopeD, ⟨b, declared, named⟩, stands.settled d b before declared⟩

/-- The declaration ends behind its own value, so the value does not see it. -/
theorem respectsAll_initial (stands : Stands nodes (top :: outer) env p (value.nodes.length + 1))
    (occurs : Occurs nodes p (.stmt (.decl node mutable name type value) :: value.nodes)) :
    RespectsAll nodes (p + 1) value.nodes ↔ value.Resolved env := by
  have whole := occurs.extent_whole (by simp [Visited.nodes])
  apply respectsAll_expr (top :: outer) occurs.tail (isTarget_of_not_assign occurs.head (by simp))
  intro u behind before
  refine stands.sees (by omega) (by omega) (fun i later earlier => ?_) ?_
  · rcases Nat.eq_or_lt_of_le later with rfl | inside
    · simp [Opens, occurs.head, Visited.opensScope]
    · exact occurs.tail.closed (fun v member => (quiet_expr value v member).2) inside (by omega)
  · intro d b later ends declared
    rcases Nat.eq_or_lt_of_le later with rfl | inside
    · omega
    · have positive := extent_pos declared
      rw [occurs.tail.undeclared (quiet_expr value) inside (by omega)] at declared
      cases declared

end Declaration

theorem names_block (stands : Stands nodes (top :: outer) env p (n + 1)) {v : Visited}
    (here : nodes[p]? = some v) (opens : v.opensScope = true) (undeclared : v.binding? = none)
    (whole : v.nodes.length = n + 1) : Shows nodes (p + (n + 1)) (top :: outer) env := by
  refine stands.names.congr fun q member => stands.ready_iff (by omega) ?_
  intro d b later ends scope declared
  have positive := extent_pos declared
  have before := (stands.region.opened q member).1
  rcases Nat.eq_or_lt_of_le later with rfl | behind
  · rw [declared?_eq here, undeclared] at declared
    cases declared
  · have further := scope.le_of_encloses (p := p) (by simp [Opens, here, opens])
      ⟨behind, by rw [extent_eq here, whole]; omega⟩
    omega

end Stands

/-- The places of a statement respect the rules exactly if it is well scoped in the environment
before it, and behind it the environment has its declarations. -/
def Agrees (nodes : List Visited) (s : Stmt) : Prop :=
  ∀ (p top : Nat) (outer : List Nat) (env : Env), Occurs nodes p s.nodes →
    Stands nodes (top :: outer) env p s.nodes.length →
    Shows nodes (p + s.nodes.length) (top :: outer) (s.declare env) ∧
      (RespectsAll nodes p s.nodes ↔ s.WellScoped env)

theorem agrees_assign (nodes : List Visited) (node : Node) (target value : Expr) :
    Agrees nodes (.assign node target value) := by
  intro p top outer env occurs stands
  rw [Stmt.nodes_assign] at occurs stands ⊢
  have quiet : Quiet (Visited.stmt (.assign node target value) ::
      (target.nodes ++ value.nodes)) :=
    ((quiet_expr target).append (quiet_expr value)).cons rfl rfl
  refine ⟨stands.names_quiet occurs quiet, ?_⟩
  rw [respectsAll_cons, respectsAll_append]
  simp only [Stmt.WellScoped]
  cases target with
  | absent =>
    have inValue := stands.respectsAll_header occurs rfl rfl (Nat.le_refl _) (by
      intro _ _ _ same
      cases same
      rfl)
    simpa [Respects, Expr.Assignable, respectsAll_nil] using inValue
  | ident node' name =>
    have one : (Expr.ident node' name).nodes = [.expr (.ident node' name)] := rfl
    rw [one] at occurs stands quiet ⊢
    have reached : ∀ u, p ≤ u → u < p + (value.nodes.length + 2) →
        Sees nodes (top :: outer) env u := fun u behind before =>
      stands.sees_quiet occurs quiet behind (by simpa using before) (by simp; omega)
    have isTargetHere : isTarget nodes (p + 1) = true := by
      simp [isTarget, occurs.head, Expr.isAbsent]
    have inTarget : RespectsAll nodes (p + 1) [.expr (.ident node' name)] :=
      respectsAll_cons.mpr ⟨fun notTarget => by simp [isTargetHere] at notTarget,
        respectsAll_nil _⟩
    have inValue : RespectsAll nodes (p + 1 + 1) value.nodes ↔ value.Resolved env :=
      respectsAll_expr (top :: outer) occurs.tail.tail
        (isTarget_of_not_assign occurs.tail.head (by simp))
        fun u behind before => reached u (by omega) (by omega)
    have assigned : Respects nodes p (.stmt (.assign node (.ident node' name) value)) ↔
        (Expr.ident node' name).Assignable env :=
      (reached (p + 1) (by omega) (by omega)).mutable_iff name
    simp only [length_cons, length_nil, Nat.zero_add, assigned, inTarget, inValue, true_and]
  | _ => simp [Respects, Expr.Assignable]

theorem agrees_list (each : ∀ s ∈ stmts, Agrees nodes s)
    (occurs : Occurs nodes p (Stmt.nodesOfList stmts))
    (stands : Stands nodes (top :: outer) env p (Stmt.nodesOfList stmts).length) :
    RespectsAll nodes p (Stmt.nodesOfList stmts) ↔ Stmt.WellScopedList env stmts := by
  induction stmts generalizing p env with
  | nil =>
    simp only [Stmt.nodesOfList_nil, Stmt.WellScopedList, iff_true]
    exact respectsAll_nil p
  | cons s rest ih =>
    rw [Stmt.nodesOfList_cons] at occurs stands ⊢
    rw [length_append] at stands
    obtain ⟨names, head⟩ := each s (by simp) p top outer env occurs.left
      (stands.mono (Nat.le_add_right _ _))
    have behind := stands.after occurs.left (contained_stmt s) names
    have tail := ih (fun s member => each s (by simp [member])) occurs.right behind
    rw [respectsAll_append, head, tail, Stmt.WellScopedList]

theorem agrees (nodes : List Visited) (s : Stmt) : Agrees nodes s := by
  induction s using Stmt.induction with
  | absent =>
    intro p top outer env _ stands
    rw [Stmt.nodes_absent] at stands ⊢
    refine ⟨stands.names, ?_⟩
    simp only [Stmt.WellScoped, iff_true]
    exact respectsAll_nil p
  | unknown node kind =>
    intro p top outer env occurs stands
    rw [Stmt.nodes_unknown] at occurs stands ⊢
    have quiet : Quiet [Visited.stmt (.unknown node kind)] :=
      Quiet.cons rfl rfl fun v member => by cases member
    refine ⟨stands.names_quiet occurs quiet, ?_⟩
    simp only [Stmt.WellScoped, iff_true]
    exact respectsAll_cons.mpr ⟨trivial, respectsAll_nil _⟩
  | bare node =>
    intro p top outer env occurs stands
    rw [Stmt.nodes_bare] at occurs stands ⊢
    refine ⟨stands.names_block occurs.head rfl rfl (by simp [Visited.nodes]), ?_⟩
    simp only [Stmt.WellScoped, iff_true]
    exact respectsAll_cons.mpr ⟨trivial, respectsAll_nil _⟩
  | block node stmts each =>
    intro p top outer env occurs stands
    rw [Stmt.nodes_block] at occurs stands ⊢
    rw [length_cons] at stands ⊢
    have whole : (Visited.stmt (.block node (some stmts))).nodes.length =
        (Stmt.nodesOfList stmts).length + 1 := by
      simp [Visited.nodes]
    refine ⟨stands.names_block occurs.head rfl rfl whole, ?_⟩
    rw [respectsAll_cons, agrees_list each occurs.tail (stands.enter occurs.head rfl rfl whole)]
    simp only [Respects, true_and, Stmt.WellScoped]
  | decl node mutable name type value =>
    intro p top outer env occurs stands
    rw [Stmt.nodes_decl] at occurs stands ⊢
    rw [length_cons] at stands ⊢
    refine ⟨stands.names_decl occurs (Nat.lt_succ_self _), ?_⟩
    rw [respectsAll_cons, stands.respectsAll_initial occurs, stands.respects_decl (Nat.succ_pos _),
      and_comm]
    simp only [Stmt.WellScoped]
  | assign node target value => exact agrees_assign nodes node target value
  | ret node value =>
    intro p top outer env occurs stands
    rw [Stmt.nodes_ret] at occurs stands ⊢
    refine ⟨stands.names_quiet occurs ((quiet_expr value).cons rfl rfl), ?_⟩
    rw [respectsAll_cons, stands.respectsAll_header occurs rfl rfl (Nat.le_refl _) (by simp)]
    simp only [Respects, true_and, Stmt.WellScoped]
  | cond node test yes no yesAgrees noAgrees =>
    intro p top outer env occurs stands
    rw [Stmt.nodes_cond_branches] at occurs stands ⊢
    rw [length_append, length_append] at stands
    have inTest := stands.respectsAll_header occurs.left rfl rfl (Nat.le_add_right _ _) (by simp)
    have atYes := stands.skip occurs.left ((quiet_expr test).cons rfl rfl)
    obtain ⟨names, inYes⟩ := yesAgrees _ top outer env occurs.right.left
      (atYes.mono (Nat.le_add_right _ _))
    have atNo := atYes.after occurs.right.left (contained_stmt yes) names
    obtain ⟨names', inNo⟩ := noAgrees _ top outer _ occurs.right.right atNo
    constructor
    · rw [length_append, length_append, ← Nat.add_assoc, ← Nat.add_assoc]
      exact names'
    · rw [respectsAll_append, respectsAll_cons, respectsAll_append, inTest, inYes, inNo]
      simp only [Respects, true_and, Stmt.WellScoped]
  | loop node test body bodyAgrees =>
    intro p top outer env occurs stands
    rw [Stmt.nodes_loop_body] at occurs stands ⊢
    rw [length_append] at stands
    have inTest := stands.respectsAll_header occurs.left rfl rfl (Nat.le_add_right _ _) (by simp)
    have atBody := stands.skip occurs.left ((quiet_expr test).cons rfl rfl)
    obtain ⟨names, inBody⟩ := bodyAgrees _ top outer env occurs.right atBody
    constructor
    · rw [length_append, ← Nat.add_assoc]
      exact names
    · rw [respectsAll_append, respectsAll_cons, inTest, inBody]
      simp only [Respects, true_and, Stmt.WellScoped]

theorem stands_function (f : Func) : Stands f.nodes [0] .ofFunction 1 f.body.nodes.length where
  region := region_function f
  settled d b before declared := by
    obtain rfl : d = 0 := by omega
    cases declared
  names := by
    refine ⟨⟨fun name x found => (by cases found), fun name _ d ready => ?_⟩, rfl⟩
    have behind := ready.1.2.1.1
    have before := ready.lt
    omega

end Places

theorem Func.lexicallyScoped_iff (f : Func) : Places.LexicallyScoped f.nodes ↔ f.WellScoped := by
  obtain ⟨-, agrees⟩ := Places.agrees f.nodes f.body 1 0 [] .ofFunction (Places.occurs_function f)
    (Places.stands_function f)
  have whole :
      Places.RespectsAll f.nodes 0 f.nodes ↔ Places.RespectsAll f.nodes 1 f.body.nodes := by
    rw [show Places.RespectsAll f.nodes 0 f.nodes =
      Places.RespectsAll f.nodes 0 (.func f :: f.body.nodes) from rfl, Places.respectsAll_cons]
    simp only [Places.Respects, true_and]
  rw [Places.lexicallyScoped_iff, whole, agrees, WellScoped]

end MiddleEnd
