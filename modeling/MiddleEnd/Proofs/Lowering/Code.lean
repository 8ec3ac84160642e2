import MiddleEnd.Lowering.Lower
import MiddleEnd.Proofs.Semantics.Evaluation
import MiddleEnd.Proofs.Semantics.Machine

/-!
The code of expressions and statements inside a finished function.
-/

namespace MiddleEnd

namespace Ir

/-- A place in a function: a block, and how many of its instructions lie behind. -/
structure Point where
  block : BlockId
  index : Nat
  deriving DecidableEq, Repr, Inhabited

def Point.skip (p : Point) (count : Nat) : Point := { p with index := p.index + count }

@[simp] theorem Point.skip_zero (p : Point) : p.skip 0 = p := rfl

namespace Func

def HasCode (g : Func) (p : Point) (code : List Instr) : Prop :=
  ∃ b, g.block? p.block = some b ∧ code <+: b.instrs.drop p.index

/-- The block ends at a place, with this terminator. -/
def HasTerm (g : Func) (p : Point) (term : Terminator) : Prop :=
  ∃ b, g.block? p.block = some b ∧ b.instrs.length = p.index ∧ b.term = term

/-- From the place, if there is one, control jumps to a block. -/
def Jumps (g : Func) (p : Option Point) (target : BlockId) : Prop :=
  ∀ place, p = some place → g.HasTerm place (.goto target)

end Func

end Ir

/-- Instructions that leave the value of an expression in an operand. They define the values
numbered from the first number up to the second. -/
inductive Expr.Code (slots : List NodeId) (env : Env) :
    Expr → Nat → List Ir.Instr → Ir.Operand → Nat → Prop where
  | int {node : Node} {n : Int32} {first : Nat} :
      Code slots env (.int node n) first [] (.int n) first
  | bool {node : Node} {b : Bool} {first : Nat} :
      Code slots env (.bool node b) first [] (.bool b) first
  | ident {node : Node} {name : Text} {d : Declared} {slot first : Nat} {type : Ir.Ty}
      (means : env.find? name = some d) (stored : slots[slot]? = some d.node) :
      Code slots env (.ident node name) first [.load first slot] (.value first type) (first + 1)
  | not {node : Node} {operand : Expr} {first last : Nat} {code : List Ir.Instr} {o : Ir.Operand}
      {type : Ir.Ty} (inner : Code slots env operand first code o last) :
      Code slots env (.unary node .not operand) first (code ++ [.unary last .not o])
        (.value last type) (last + 1)
  | compare {node : Node} {op : BinaryOp} {pred : Ir.CmpPred} {left right : Expr}
      {first middle last : Nat} {code code' : List Ir.Instr} {l r : Ir.Operand} {type : Ir.Ty}
      (lowers : Lowering.comparison? op = some pred)
      (onLeft : Code slots env left first code l middle)
      (onRight : Code slots env right middle code' r last) :
      Code slots env (.binary node op left right) first (code ++ code' ++ [.compare last pred l r])
        (.value last type) (last + 1)
  | arithmetic {node : Node} {op : BinaryOp} {operation : Ir.BinOp} {left right : Expr}
      {first middle last : Nat} {code code' : List Ir.Instr} {l r : Ir.Operand} {type : Ir.Ty}
      (lowers : Lowering.arithmeticOp? op = some operation)
      (onLeft : Code slots env left first code l middle)
      (onRight : Code slots env right middle code' r last) :
      Code slots env (.binary node op left right) first
        (code ++ code' ++ [.binary last operation l r]) (.value last type) (last + 1)

namespace Ir.Func

/-- The value of an expression is computed from one place to another. -/
def Computes (g : Func) (slots : List NodeId) (env : Env) (e : Expr) (p : Point) (o : Operand)
    (q : Point) : Prop :=
  ∃ first code last, e.Code slots env first code o last ∧ g.HasCode p code ∧ q = p.skip code.length

/-- The value of an expression is computed from one place to another and stored in a cell. -/
def Assigns (g : Func) (slots : List NodeId) (env : Env) (cell : NodeId) (e : Expr) (p q : Point) :
    Prop :=
  ∃ (slot : Nat) (o : Operand) (middle : Point), slots[slot]? = some cell ∧
    g.Computes slots env e p o middle ∧ g.HasCode middle [.store slot o] ∧ q = middle.skip 1

end Ir.Func

namespace Stmt

mutual
/-- Whether a statement ends with the block under construction closed: it returns on every way. -/
def closes : Stmt → Bool
  | .ret _ _ => true
  | .block _ (some stmts) => closesAny stmts
  | _ => false
def closesAny : List Stmt → Bool
  | [] => false
  | s :: rest => s.closes || closesAny rest
end

mutual
/-- The declarations that get a slot, in the order of their slots. Those behind a return get
none. -/
def stored : Stmt → List NodeId
  | .block _ (some stmts) => storedOfList stmts
  | .decl node _ _ _ _ => [node.id]
  | .cond _ _ yes no => yes.stored ++ no.stored
  | .loop _ _ body => body.stored
  | _ => []
def storedOfList : List Stmt → List NodeId
  | [] => []
  | s :: rest => s.stored ++ if s.closes then [] else storedOfList rest
end

mutual
/-- The code of a statement leads from one place to another. No place stands for code that control
does not come to: what follows a return. -/
def CodeAt (g : Ir.Func) (slots : List NodeId) (env : Env) :
    Stmt → Option Ir.Point → Option Ir.Point → Prop
  | _, none, q => q = none
  | .absent, some p, q => q = some p
  | .block _ none, some p, q => q = some p
  | .block _ (some stmts), some p, q => CodeOfListAt g slots ([] :: env) stmts (some p) q
  | .decl node _ _ _ value, some p, q =>
    if value.isAbsent then q = some p
    else ∃ q', g.Assigns slots env node.id value p q' ∧ q = some q'
  | .assign _ target value, some p, q =>
    ∃ d q', target.name?.bind env.find? = some d ∧ g.Assigns slots env d.node value p q' ∧
      q = some q'
  | .ret _ value, some p, q =>
    if value.isAbsent then g.HasTerm p (.ret none) ∧ q = none
    else ∃ o q', g.Computes slots env value p o q' ∧ g.HasTerm q' (.ret (some o)) ∧ q = none
  | .cond _ test yes no, some p, q =>
    ∃ o q' yesBlock noBlock merge yesEnd noEnd,
      g.Computes slots env test p o q' ∧ g.HasTerm q' (.branch o yesBlock noBlock) ∧
        CodeAt g slots env yes (some ⟨yesBlock, 0⟩) yesEnd ∧ g.Jumps yesEnd merge ∧
        CodeAt g slots (yes.declare env) no (some ⟨noBlock, 0⟩) noEnd ∧
        (noEnd = some ⟨merge, 0⟩ ∨ g.Jumps noEnd merge) ∧ q = some ⟨merge, 0⟩
  | .loop _ test body, some p, q =>
    ∃ o q' testBlock bodyBlock exitBlock bodyEnd,
      g.HasTerm p (.goto testBlock) ∧ g.Computes slots env test ⟨testBlock, 0⟩ o q' ∧
        g.HasTerm q' (.branch o bodyBlock exitBlock) ∧
        CodeAt g slots env body (some ⟨bodyBlock, 0⟩) bodyEnd ∧ g.Jumps bodyEnd testBlock ∧
        q = some ⟨exitBlock, 0⟩
  | .unknown _ _, some _, _ => False
def CodeOfListAt (g : Ir.Func) (slots : List NodeId) (env : Env) :
    List Stmt → Option Ir.Point → Option Ir.Point → Prop
  | [], p, q => q = p
  | s :: rest, p, q =>
    ∃ middle, CodeAt g slots env s p middle ∧ CodeOfListAt g slots (s.declare env) rest middle q
end

end Stmt

end MiddleEnd
