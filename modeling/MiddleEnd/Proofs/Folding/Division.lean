import MiddleEnd.Proofs.Folding.Typing

/-!
Folding an expression fails where it meets a division of two known integers by zero, and nowhere
else.
-/

namespace MiddleEnd

open List

variable {op : BinaryOp}

theorem BinaryOp.applyInts_eq_zeroDivisor :
    op.applyInts l r = .zeroDivisor ↔ (op = .div ∨ op = .mod) ∧ r = 0 := by
  cases op <;> simp [applyInts]

namespace Expr

/-- The nodes of an expression from left to right, each behind its operands. -/
def postorder : Expr → List Expr
  | .absent => []
  | .unary node op operand => operand.postorder ++ [.unary node op operand]
  | .binary node op left right =>
    left.postorder ++ right.postorder ++ [.binary node op left right]
  | .int node value => [.int node value]
  | .bool node value => [.bool node value]
  | .ident node name => [.ident node name]
  | .unknown node kind => [.unknown node kind]

variable {e : Expr} {d : DivisionByZero} {n : Int32} {id : NodeId} {node : Node}

theorem mem_postorder : part ∈ e.postorder ↔ .expr part ∈ e.nodes := by
  induction e with
  | absent => simp [postorder]
  | unary node op operand ih => simp [postorder, ih, or_comm]
  | binary node op left right leftIH rightIH =>
    rw [postorder, mem_append, mem_append, mem_singleton, leftIH, rightIH,
      nodes_binary, mem_cons, mem_append, Visited.expr.injEq]
    exact or_comm
  | int | bool | ident | unknown => simp [postorder, nodes, walk]

/-- A node that divides by zero in plain sight: its operands fold to integers, the right one to
zero. -/
inductive DividesByZero : Expr → DivisionByZero → Prop
  | intro {node : Node} {op : BinaryOp} {left right : Expr} {m n : Node} {l : Int32}
      (divides : op = .div ∨ op = .mod) (leftFolded : left.fold = .ok (.int m l))
      (rightFolded : right.fold = .ok (.int n 0)) :
      DividesByZero (.binary node op left right) ⟨op, l, 0, node.id⟩

/-- The first of the parts to divide by zero is this division. -/
def FirstDivision (parts : List Expr) (d : DivisionByZero) : Prop :=
  ∃ before part after, parts = before ++ part :: after ∧ part.DividesByZero d ∧
    ∀ earlier ∈ before, ∀ d', ¬ earlier.DividesByZero d'

theorem FirstDivision.append (first : FirstDivision parts d) (more : List Expr) :
    FirstDivision (parts ++ more) d := by
  obtain ⟨before, part, after, rfl, divides, clear⟩ := first
  exact ⟨before, part, after ++ more, by simp, divides, clear⟩

theorem FirstDivision.behind (first : FirstDivision parts d)
    (frontClear : ∀ part ∈ front, ∀ d', ¬ part.DividesByZero d') :
    FirstDivision (front ++ parts) d := by
  obtain ⟨before, part, after, rfl, divides, clear⟩ := first
  exact ⟨front ++ before, part, after, by simp, divides,
    forall_mem_append.mpr ⟨frontClear, clear⟩⟩

theorem literal_eq_int (same : literal id v = .int node n) : v = .int n := by
  cases v with
  | int m =>
    cases same
    rfl
  | bool b => cases same

theorem no_division_of_fold (equation : e.fold = .ok folded) :
    ∀ part ∈ e.postorder, ∀ d, ¬ part.DividesByZero d := by
  induction e generalizing folded with
  | absent => exact forall_mem_nil _
  | int | bool | ident =>
    refine forall_mem_singleton.mpr ?_
    rintro d ⟨⟩
  | unary node op operand ih =>
    obtain ⟨operand', operandFolded, equation⟩ := bind_eq_ok.mp equation
    refine forall_mem_append.mpr ⟨ih operandFolded, forall_mem_singleton.mpr ?_⟩
    rintro d ⟨⟩
  | binary node op left right leftIH rightIH =>
    obtain ⟨left', leftFolded, equation⟩ := bind_eq_ok.mp equation
    obtain ⟨right', rightFolded, equation⟩ := bind_eq_ok.mp equation
    refine forall_mem_append.mpr
      ⟨forall_mem_append.mpr ⟨leftIH leftFolded, rightIH rightFolded⟩,
        forall_mem_singleton.mpr ?_⟩
    rintro d ⟨divides, leftInt, rightInt⟩
    cases leftFolded.symm.trans leftInt
    cases rightFolded.symm.trans rightInt
    have stopped := fun l => (BinaryOp.applyInts_eq_zeroDivisor (l := l)).mpr ⟨divides, rfl⟩
    simp only [foldBinary, stopped] at equation
    cases equation
  | unknown node kind => cases equation

theorem foldUnary_ne_division {op : UnaryOp} :
    foldUnary id op operand ≠ .error (.divisionByZero d) := by
  intro equation
  unfold foldUnary at equation
  split at equation <;> cases equation

theorem foldBinary_eq_division {left right : Expr}
    (equation : foldBinary id op left right = .error (.divisionByZero d)) :
    ∃ m n l, left = .int m l ∧ right = .int n 0 ∧ (op = .div ∨ op = .mod) ∧
      d = ⟨op, l, 0, id⟩ := by
  unfold foldBinary at equation
  split at equation
  · cases equation
  · cases equation
  · next m l n r =>
    cases applied : op.applyInts l r with
    | zeroDivisor =>
      obtain ⟨divides, rfl⟩ := BinaryOp.applyInts_eq_zeroDivisor.mp applied
      rw [applied] at equation
      cases equation
      exact ⟨m, n, l, rfl, rfl, divides, rfl⟩
    | value v =>
      rw [applied] at equation
      cases equation
    | meaningless =>
      rw [applied] at equation
      cases equation
  · cases equation

/-- The two ways in which folding a binary node meets a division: in an operand, or at the node
itself once both operands are folded. -/
theorem fold_binary_division
    (equation : (binary node op left right).fold = .error (.divisionByZero d)) :
    left.fold = .error (.divisionByZero d) ∨
      (∃ left', left.fold = .ok left' ∧ right.fold = .error (.divisionByZero d)) ∨
      ∃ m n l, left.fold = .ok (.int m l) ∧ right.fold = .ok (.int n 0) ∧
        (op = .div ∨ op = .mod) ∧ d = ⟨op, l, 0, node.id⟩ := by
  rw [fold] at equation
  cases leftFolded : left.fold with
  | error e =>
    rw [leftFolded] at equation
    exact .inl equation
  | ok left' =>
    rw [leftFolded, ok_bind] at equation
    cases rightFolded : right.fold with
    | error e =>
      rw [rightFolded] at equation
      exact .inr (.inl ⟨left', rfl, equation⟩)
    | ok right' =>
      rw [rightFolded, ok_bind] at equation
      obtain ⟨m, n, l, rfl, rfl, divides, same⟩ := foldBinary_eq_division equation
      exact .inr (.inr ⟨m, n, l, rfl, rfl, divides, same⟩)

theorem fold_unary_division {op : UnaryOp}
    (equation : (unary node op operand).fold = .error (.divisionByZero d)) :
    operand.fold = .error (.divisionByZero d) := by
  rw [fold] at equation
  cases operandFolded : operand.fold with
  | error e =>
    rw [operandFolded] at equation
    exact equation
  | ok operand' =>
    rw [operandFolded, ok_bind] at equation
    exact absurd equation foldUnary_ne_division

theorem first_division_of_fold (equation : e.fold = .error (.divisionByZero d)) :
    FirstDivision e.postorder d := by
  induction e with
  | absent | int | bool | ident | unknown => cases equation
  | unary node op operand ih => exact (ih (fold_unary_division equation)).append _
  | binary node op left right leftIH rightIH =>
    rw [postorder, append_assoc]
    rcases fold_binary_division equation with
      inLeft | ⟨left', leftFolded, inRight⟩ | ⟨m, n, l, leftFolded, rightFolded, divides, rfl⟩
    · exact (leftIH inLeft).append _
    · exact ((rightIH inRight).append _).behind (no_division_of_fold leftFolded)
    · have here : FirstDivision [binary node op left right] ⟨op, l, 0, node.id⟩ :=
        ⟨[], _, [], rfl, ⟨divides, leftFolded, rightFolded⟩, forall_mem_nil _⟩
      exact (here.behind (no_division_of_fold rightFolded)).behind
        (no_division_of_fold leftFolded)

/-- An expression that folds to an integer is one for every evaluation: no variable and no truth
value has a part in it. -/
theorem eval_of_fold_int (equation : e.fold = .ok (.int node n)) (ops : TruthOperators) (env : Env)
    (cells : Cells) : e.eval ops env cells = .ok (.int n) := by
  generalize whole : Expr.int node n = folded at equation
  replace equation := folds_of_fold equation
  induction equation generalizing node n with
  | absent | bool | ident | negation | unary | binary => cases whole
  | int =>
    cases whole
    rfl
  | complement _ ih =>
    cases whole
    rw [eval, ih rfl]
    rfl
  | ints _ _ applied leftIH rightIH =>
    rw [eval, leftIH rfl, ok_bind, rightIH rfl, ok_bind, TruthOperators.binary,
      ← BinaryOp.applyInts_eq_onInts, applied, literal_eq_int whole.symm]
    rfl

theorem no_value_of_division (equation : e.fold = .error (.divisionByZero d)) (ops : TruthOperators)
    (env : Env) (cells : Cells) : ∃ why, e.eval ops env cells = .error why := by
  induction e with
  | absent | int | bool | ident | unknown => cases equation
  | unary node op operand ih =>
    obtain ⟨why, halted⟩ := ih (fold_unary_division equation)
    exact ⟨why, by rw [eval, halted]; rfl⟩
  | binary node op left right leftIH rightIH =>
    rw [eval]
    rcases fold_binary_division equation with
      inLeft | ⟨left', -, inRight⟩ | ⟨m, n, l, leftFolded, rightFolded, divides, -⟩
    · obtain ⟨why, halted⟩ := leftIH inLeft
      exact ⟨why, by rw [halted]; rfl⟩
    · obtain ⟨why, halted⟩ := rightIH inRight
      cases leftValue : left.eval ops env cells with
      | error earlier => exact ⟨earlier, rfl⟩
      | ok l => exact ⟨why, by rw [ok_bind, halted]; rfl⟩
    · refine ⟨.trap, ?_⟩
      rw [eval_of_fold_int leftFolded, ok_bind, eval_of_fold_int rightFolded, ok_bind,
        TruthOperators.binary, ← BinaryOp.applyInts_eq_onInts,
        BinaryOp.applyInts_eq_zeroDivisor.mpr ⟨divides, rfl⟩]
      rfl

end Expr

def TruthOperators.Meaningful (ops : TruthOperators) : Prop :=
  ∀ op ∈ BinaryOp.known, ∀ l r, ops.combine op l r ≠ .meaningless

theorem TruthOperators.Meaningful.binary {ops : TruthOperators} (meaningful : ops.Meaningful)
    {op : BinaryOp} (known : op ∈ BinaryOp.known) (l r : Constant) :
    Delivers (ops.binary op l r).result (fun _ => True) (· = .trap) := by
  have applies : ops.binary op l r ≠ .meaningless := by
    unfold TruthOperators.binary
    split
    · next l r =>
      rw [← op.applyInts_eq_onInts]
      exact BinaryOp.applyInts_ne_meaningless known l r
    · exact meaningful op known l r
  cases applied : ops.binary op l r with
  | value v => trivial
  | zeroDivisor => rfl
  | meaningless => exact absurd applied applies

namespace Expr

/-- Where every name has a cell and every operator a meaning, only a division ends an evaluation
without a value. -/
theorem eval_delivers {e : Expr} (supported : e.Supported) (resolved : e.Resolved env)
    (meaningful : ops.Meaningful) (cells : Cells) :
    Delivers (e.eval ops env cells) (fun _ => True) (· = .trap) := by
  induction e with
  | absent => exact absurd supported supported_absent
  | int | bool => trivial
  | ident node name =>
    obtain ⟨d, found⟩ := Option.isSome_iff_exists.mp resolved
    simp only [eval, found]
    trivial
  | unary node op operand ih =>
    obtain ⟨onOperand, rfl⟩ := (supported_unary _ _ _).mp supported
    refine (ih onOperand resolved).bind fun v _ => ?_
    cases v <;> trivial
  | binary node op left right leftIH rightIH =>
    obtain ⟨onLeft, onRight, known⟩ := (supported_binary _ _ _ _).mp supported
    exact (leftIH onLeft resolved.1).bind fun l _ => (rightIH onRight resolved.2).bind fun r _ =>
      meaningful.binary known l r
  | unknown node kind => exact absurd supported (supported_unknown node kind)

/-- Folding an expression fails exactly when some node in it divides by zero in plain sight. The
failure names the first such node, and evaluation ends there whatever the variables hold. -/
theorem fold_reports_first_division {e : Expr} (supported : e.Supported) :
    ((∃ error, e.fold = .error error) ↔
      ∃ part d, .expr part ∈ e.nodes ∧ part.DividesByZero d) ∧
    ∀ error, e.fold = .error error →
      ∃ d, error = .divisionByZero d ∧ FirstDivision e.postorder d ∧
        ∀ ops env cells, ∃ why, e.eval ops env cells = .error why ∧
          (e.Resolved env → ops.Meaningful → why = .trap) := by
  have reports : ∀ error, e.fold = .error error → ∃ d, error = .divisionByZero d := by
    intro error equation
    have delivers := fold_supported supported
    rwa [equation] at delivers
  refine ⟨⟨?_, ?_⟩, ?_⟩
  · rintro ⟨error, equation⟩
    obtain ⟨d, rfl⟩ := reports error equation
    obtain ⟨before, part, after, order, divides, -⟩ := first_division_of_fold equation
    exact ⟨part, d, mem_postorder.mp (by simp [order]), divides⟩
  · rintro ⟨part, d, member, divides⟩
    cases equation : e.fold with
    | error error => exact ⟨error, rfl⟩
    | ok folded =>
      exact absurd divides (no_division_of_fold equation part (mem_postorder.mpr member) d)
  · intro error equation
    obtain ⟨d, rfl⟩ := reports error equation
    refine ⟨d, rfl, first_division_of_fold equation, fun ops env cells => ?_⟩
    obtain ⟨why, halted⟩ := no_value_of_division equation ops env cells
    refine ⟨why, halted, fun resolved meaningful => ?_⟩
    have delivers := eval_delivers supported resolved meaningful cells
    rwa [halted] at delivers

/-- Divides six by a sum that wraps around to zero, behind a variable and in front of another
division by zero. -/
def overflowing : Expr :=
  .binary ⟨1, []⟩ .add
    (.binary ⟨2, []⟩ .mod (.ident ⟨3, []⟩ [120])
      (.binary ⟨4, []⟩ .mod (.int ⟨5, []⟩ 6)
        (.binary ⟨6, []⟩ .add (.binary ⟨7, []⟩ .add (.int ⟨8, []⟩ 0x7fffffff)
          (.int ⟨9, []⟩ 0x7fffffff)) (.int ⟨10, []⟩ 2))))
    (.binary ⟨11, []⟩ .div (.int ⟨12, []⟩ 1) (.int ⟨13, []⟩ 0))

theorem overflowing_reports_remainder :
    overflowing.Supported ∧ overflowing.fold = .error (.divisionByZero ⟨.mod, 6, 0, 4⟩) ∧
      FirstDivision overflowing.postorder ⟨.mod, 6, 0, 4⟩ := by
  have supported : overflowing.Supported := ⟨rfl, all_eq_true.mp rfl⟩
  have reported : overflowing.fold = .error (.divisionByZero ⟨.mod, 6, 0, 4⟩) := rfl
  refine ⟨supported, reported, ?_⟩
  obtain ⟨d, same, first, -⟩ := (fold_reports_first_division supported).2 _ reported
  cases same
  exact first

end Expr

end MiddleEnd
