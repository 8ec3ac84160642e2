import MiddleEnd.Interchange.Datum
import MiddleEnd.Syntax.Kind
import MiddleEnd.Syntax.Operator
import MiddleEnd.Syntax.Ty
import MiddleEnd.Text.Quoted

/-!
The shapes of the records that files are made of. Both formats follow this one description.
-/

namespace MiddleEnd.Interchange

inductive Vocabulary where
  | type
  | unaryOp
  | binaryOp
  | exprKind
  | stmtKind
  deriving DecidableEq, Repr, Inhabited

inductive RecordType where
  | file | module | func
  | stmt | block | decl | assign | ret | cond | loop
  | expr | unary | binary
  | cacheEntry
  deriving DecidableEq, Repr, Inhabited

/-- A `record` is part of the record around it, a `link` may be absent, and `links` are a list of
links that may itself be absent. -/
inductive Shape where
  | unsigned (bytes : Nat)
  | signed (bytes : Nat)
  | flag
  | text
  | bytes
  | word (v : Vocabulary)
  | record (r : RecordType)
  | link (r : RecordType)
  | links (r : RecordType)
  deriving DecidableEq, Repr, Inhabited

structure Field where
  name : String
  shape : Shape
  optional : Bool := false
  deriving DecidableEq, Repr, Inhabited

def RecordType.fields : RecordType → List Field
  | .file => [⟨"schema", .unsigned 2, false⟩, ⟨"producer", .text, true⟩, ⟨"module", .link .module, false⟩]
  | .module => [⟨"id", .unsigned 4, false⟩, ⟨"name", .text, false⟩, ⟨"funcs", .links .func, false⟩]
  | .func =>
    [⟨"id", .unsigned 4, false⟩, ⟨"name", .text, false⟩, ⟨"result", .word .type, false⟩,
      ⟨"body", .link .stmt, false⟩]
  | .stmt =>
    [⟨"id", .unsigned 4, false⟩, ⟨"kind", .word .stmtKind, false⟩, ⟨"block", .record .block, true⟩,
      ⟨"decl", .record .decl, true⟩, ⟨"assign", .record .assign, true⟩,
      ⟨"return", .record .ret, true⟩, ⟨"if", .record .cond, true⟩,
      ⟨"while", .record .loop, true⟩]
  | .block => [⟨"stmts", .links .stmt, false⟩]
  | .decl => [⟨"name", .text, false⟩, ⟨"type", .word .type, false⟩, ⟨"value", .link .expr, true⟩]
  | .assign => [⟨"target", .link .expr, false⟩, ⟨"value", .link .expr, false⟩]
  | .ret => [⟨"value", .link .expr, true⟩]
  | .cond => [⟨"cond", .link .expr, false⟩, ⟨"then", .link .stmt, false⟩, ⟨"else", .link .stmt, true⟩]
  | .loop => [⟨"cond", .link .expr, false⟩, ⟨"body", .link .stmt, false⟩]
  | .expr =>
    [⟨"id", .unsigned 4, false⟩, ⟨"kind", .word .exprKind, false⟩, ⟨"int", .signed 4, true⟩,
      ⟨"bool", .flag, true⟩, ⟨"name", .text, true⟩, ⟨"unary", .record .unary, true⟩,
      ⟨"binary", .record .binary, true⟩]
  | .unary => [⟨"op", .word .unaryOp, false⟩, ⟨"operand", .link .expr, false⟩]
  | .binary =>
    [⟨"op", .word .binaryOp, false⟩, ⟨"left", .link .expr, false⟩, ⟨"right", .link .expr, false⟩]
  | .cacheEntry =>
    [⟨"Schema", .unsigned 2, false⟩, ⟨"Name", .text, false⟩, ⟨"Emit", .text, false⟩,
      ⟨"Version", .text, false⟩, ⟨"Output", .bytes, false⟩]

/-- What a field holds before anything is said about it. Records nest `fuel` deep without a link
between. -/
def Shape.zeroWithin : (fuel : Nat) → Shape → Datum
  | _, .unsigned _ | _, .signed _ | _, .word _ => .number 0
  | _, .flag => .flag false
  | _, .text => .text []
  | _, .bytes | _, .link _ | _, .links _ => .absent
  | 0, .record _ => .record []
  | fuel + 1, .record r => .record (r.fields.map fun f => f.shape.zeroWithin fuel)

def Shape.zero (s : Shape) : Datum :=
  s.zeroWithin 2

mutual
/-- Whether a field holds what it holds before anything is said about it. An empty list counts as
said. -/
def Shape.isZero (shape : Shape) : Datum → Bool
  | .number n => n == 0
  | .flag b => !b
  | .text t => t.isEmpty
  | .absent => true
  | .record data =>
    match shape with
    | .record r => areZero r.fields data
    | _ => false
  | .list _ _ => false
def areZero : List Field → List Datum → Bool
  | _, [] => true
  | [], _ :: _ => true
  | field :: fields, datum :: data => field.shape.isZero datum && areZero fields data
end

/-! Words and their codes. -/

structure UnknownWord where
  vocabulary : Vocabulary
  word : Text
  deriving DecidableEq, Repr, Inhabited

structure UnknownCode where
  vocabulary : Vocabulary
  code : UInt8
  deriving DecidableEq, Repr, Inhabited

def Vocabulary.title : Vocabulary → Text
  | .type => "type"
  | .unaryOp => "unary operator"
  | .binaryOp => "binary operator"
  | .exprKind => "expression kind"
  | .stmtKind => "statement kind"

def UnknownWord.message (e : UnknownWord) : Text :=
  .concat ["ast: unknown ", e.vocabulary.title, " ", e.word.quoted]

def UnknownCode.message (e : UnknownCode) : Text :=
  .concat ["ast: invalid ", e.vocabulary.title, " ", .ofNat e.code.toNat]

namespace Vocabulary

def code? (v : Vocabulary) (word : Text) : Option UInt8 :=
  match v with
  | .type => (Ty.ofName? word).map Ty.code
  | .unaryOp => (UnaryOp.ofName? word).map UnaryOp.code
  | .binaryOp => (BinaryOp.ofName? word).map BinaryOp.code
  | .exprKind => (ExprKind.ofName? word).map ExprKind.code
  | .stmtKind => (StmtKind.ofName? word).map StmtKind.code

def code (v : Vocabulary) (word : Text) : Except UnknownWord UInt8 :=
  match v.code? word with
  | some code => .ok code
  | none => .error ⟨v, word⟩

def name (v : Vocabulary) (code : UInt8) : Text :=
  match v with
  | .type => (Ty.ofCode code).name
  | .unaryOp => (UnaryOp.ofCode code).name
  | .binaryOp => (BinaryOp.ofCode code).name
  | .exprKind => (ExprKind.ofCode code).name
  | .stmtKind => (StmtKind.ofCode code).name

/-- Types and unary operators have a word for every code. -/
def hasWord (v : Vocabulary) (code : UInt8) : Bool :=
  match v with
  | .type | .unaryOp => true
  | .binaryOp => (BinaryOp.ofCode code).isKnown
  | .exprKind => (ExprKind.ofCode code).isKnown
  | .stmtKind => (StmtKind.ofCode code).isKnown

def word (v : Vocabulary) (code : UInt8) : Except UnknownCode Text :=
  if v.hasWord code then .ok (v.name code) else .error ⟨v, code⟩

end Vocabulary

end MiddleEnd.Interchange
