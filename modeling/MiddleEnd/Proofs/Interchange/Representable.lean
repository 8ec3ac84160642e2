import MiddleEnd.Proofs.Interchange.Records
import MiddleEnd.Proofs.Interchange.Trees
import MiddleEnd.Proofs.Syntax.Names

/-!
Trees that a format can carry: those that have a record that fits, and that the record reads as.
-/

namespace MiddleEnd

open Interchange List

variable {d : Datum}

/-- What the node carries is what the fields of a record hold, but for the one that is read. -/
def Node.Carries (c : Capacity) (r : RecordType) (reads : String) (node : Node) : Prop :=
  ∃ data, fieldsFit c (r.fields.drop 2) data ∧ areSettled data ∧
    node.unread = unreadFields r reads data

def Visited.Representable (c : Capacity) : Visited → Prop
  | .func f => f.result.isKnown ∧ c.text f.name
  | .stmt (.block node none) => node.Carries c .stmt "block"
  | .stmt (.block node (some stmts)) => node.Carries c .stmt "block" ∧ c.count stmts.length
  | .stmt (.decl node _ name type _) => node.Carries c .stmt "decl" ∧ c.text name ∧ type.isKnown
  | .stmt (.assign node _ _) => node.Carries c .stmt "assign"
  | .stmt (.ret node _) => node.Carries c .stmt "return"
  | .stmt (.cond node _ _ _) => node.Carries c .stmt "if"
  | .stmt (.loop node _ _) => node.Carries c .stmt "while"
  | .expr (.int node _) => node.Carries c .expr "int"
  | .expr (.bool node _) => node.Carries c .expr "bool"
  | .expr (.ident node name) => node.Carries c .expr "name" ∧ c.text name
  | .expr (.unary node op _) => node.Carries c .expr "unary" ∧ op.isKnown
  | .expr (.binary node op _ _) => node.Carries c .expr "binary" ∧ op.isKnown
  | .stmt .absent | .stmt (.unknown _ _) | .expr .absent | .expr (.unknown _ _) => False

structure Module.Representable (c : Capacity) (m : Module) : Prop where
  name : c.text m.name
  few : ∀ funcs, m.funcs = some funcs → c.count funcs.length
  nodes : ∀ v ∈ m.nodes, v.Representable c

theorem Node.carries_nothing {c : Capacity} (empty : c.text []) (r : RecordType) (reads : String)
    (id : NodeId) : Carries c r reads ⟨id, []⟩ := by
  refine ⟨(r.fields.drop 2).map fun field => field.shape.zero, ?_, ?_, ?_⟩
  · have each (fields : List Field) :
        fieldsFit c fields (fields.map fun field => field.shape.zero) := by
      induction fields with
      | nil => rfl
      | cons field fields ih =>
        exact Bool.and_eq_true_iff.mpr ⟨zero_fits empty field.shape, ih⟩
    exact each _
  · rw [areSettled_iff, forall_mem_map]
    exact fun field _ => isSettled_zero field.shape
  · rw [unreadFields_eq]
    have each (fields : List Field) :
        saidIn fields reads (fields.map fun field => field.shape.zero) = [] := by
      induction fields with
      | nil => rfl
      | cons field fields ih =>
        rw [map_cons, saidIn_cons, Shape.isZero_zero, Bool.not_true, Bool.and_false]
        exact ih
    exact (each _).symm

namespace Expr

variable {c : Capacity}

/-- What a record reads as, by the kind that it gives. -/
def ofPayload (p : ExprPayload) (id : Int) : ExprKind → Expr
  | .int => .int ⟨UInt32.ofInt id, unreadFields .expr "int" p.data⟩ (Int32.ofInt p.value)
  | .bool => .bool ⟨UInt32.ofInt id, unreadFields .expr "bool" p.data⟩ p.truth
  | .ident => .ident ⟨UInt32.ofInt id, unreadFields .expr "name" p.data⟩ p.name
  | .unary =>
    .unary ⟨UInt32.ofInt id, unreadFields .expr "unary" p.data⟩
      (UnaryOp.ofCode (UInt8.ofInt p.unaryOp)) (ofDatum p.operand)
  | .binary =>
    .binary ⟨UInt32.ofInt id, unreadFields .expr "binary" p.data⟩
      (BinaryOp.ofCode (UInt8.ofInt p.binaryOp)) (ofDatum p.left) (ofDatum p.right)
  | .other code => .unknown ⟨UInt32.ofInt id, unreadFields .expr "" p.data⟩ code

theorem ofDatum_record (p : ExprPayload) (id kind : Int) :
    ofDatum (p.record id kind) = ofPayload p id (ExprKind.ofCode (UInt8.ofInt kind)) := rfl

theorem ofDatum_sound (sound : Sound c (.link .expr) d) :
    (ofDatum d).toDatum = d ∧ ∀ v ∈ (ofDatum d).nodes, v.Representable c := by
  refine exprRecord_induction ?absent ?record d sound
  case absent => exact ⟨rfl, forall_mem_nil _⟩
  case record =>
    intro p id kind numbered known sound operandIH leftIH rightIH
    obtain ⟨known, coded⟩ := Shape.allows_word known
    have code := code_ofCode.2.2.2.1 known
    obtain ⟨fitting, settled⟩ := sound.fieldsFit
    rw [ofDatum_record]
    rw [Vocabulary.contains] at known
    generalize ExprKind.ofCode (UInt8.ofInt kind) = form at code known
    cases form with
    | int =>
      rw [ofPayload, toDatum, toInt_ofInt sound.value, code]
      exact ⟨assemble_restored rfl fitting numbered coded rfl,
        forall_mem_singleton.mpr ⟨p.data, fitting, settled, rfl⟩⟩
    | bool =>
      rw [ofPayload, toDatum, code]
      exact ⟨assemble_restored rfl fitting numbered coded rfl,
        forall_mem_singleton.mpr ⟨p.data, fitting, settled, rfl⟩⟩
    | ident =>
      rw [ofPayload, toDatum, code]
      exact ⟨assemble_restored rfl fitting numbered coded rfl,
        forall_mem_singleton.mpr ⟨⟨p.data, fitting, settled, rfl⟩, sound.name⟩⟩
    | unary =>
      obtain ⟨opKnown, opCoded⟩ := Shape.allows_word sound.unaryOp
      rw [ofPayload, toDatum, code, code_ofCode.2.1 opKnown, ← opCoded, operandIH.1, nodes_unary]
      exact ⟨assemble_restored rfl fitting numbered coded rfl,
        forall_mem_cons.mpr ⟨⟨⟨p.data, fitting, settled, rfl⟩, opKnown⟩, operandIH.2⟩⟩
    | binary =>
      obtain ⟨opKnown, opCoded⟩ := Shape.allows_word sound.binaryOp
      rw [ofPayload, toDatum, code, code_ofCode.2.2.1 opKnown, ← opCoded, leftIH.1, rightIH.1,
        nodes_binary]
      exact ⟨assemble_restored rfl fitting numbered coded rfl, forall_mem_cons.mpr
        ⟨⟨⟨p.data, fitting, settled, rfl⟩, opKnown⟩,
          forall_mem_append.mpr ⟨leftIH.2, rightIH.2⟩⟩⟩
    | other code => cases known

theorem payload_of_carries {node : Node} (carries : node.Carries c .expr reads) :
    ∃ p : ExprPayload, p.Sound c ∧
      ⟨UInt32.ofInt node.id.toNat, unreadFields .expr reads p.data⟩ = node ∧
      ∀ kind d, node.assemble .expr kind [(reads, d)] =
        .record (.number node.id.toNat :: .number kind.toNat ::
          withField (RecordType.expr.fields.drop 2) reads d p.data) := by
  obtain ⟨data, fitting, settled, unread⟩ := carries
  obtain ⟨p, rfl, sound⟩ := ExprPayload.of_fieldsFit fitting settled
  exact ⟨p, sound, by rw [UInt32.ofInt_toNat, ← unread], assemble_unread rfl fitting unread⟩

theorem toDatum_of_payload {e : Expr} {id : NodeId} {kind : ExprKind} (sound : p.Sound c)
    (form : e.toDatum = p.record id.toNat kind.code.toNat) (known : kind.isKnown)
    (back : ofPayload p id.toNat kind = e) :
    ofDatum e.toDatum = e ∧ Sound c (.link .expr) e.toDatum := by
  have decoded := ExprKind.ofCode_code known
  rw [form]
  constructor
  · rw [ofDatum_record, ofInt_toNat, decoded, back]
  · refine sound.record (allows_id id) (Vocabulary.allows_code ?_)
    rw [Vocabulary.contains, decoded, known]

theorem toDatum_sound {e : Expr} (representable : ∀ v ∈ e.nodes, v.Representable c) :
    ofDatum e.toDatum = e ∧ Sound c (.link .expr) e.toDatum := by
  induction e with
  | absent => exact ⟨rfl, sound_absent _⟩
  | int node value =>
    obtain ⟨p, sound, unread, assembled⟩ :=
      payload_of_carries (representable _ (mem_singleton.mpr rfl))
    refine toDatum_of_payload (p := { p with value := value.toInt })
      { sound with value := allows_int value } (assembled _ _) rfl ?_
    rw [ofPayload, Int32.ofInt_toInt]
    exact congrArg (Expr.int · value) unread
  | bool node value =>
    obtain ⟨p, sound, unread, assembled⟩ :=
      payload_of_carries (representable _ (mem_singleton.mpr rfl))
    exact toDatum_of_payload (p := { p with truth := value }) { sound with } (assembled _ _) rfl
      (congrArg (Expr.bool · value) unread)
  | ident node name =>
    obtain ⟨carries, named⟩ := representable _ (mem_singleton.mpr rfl)
    obtain ⟨p, sound, unread, assembled⟩ := payload_of_carries carries
    exact toDatum_of_payload (p := { p with name }) { sound with name := named } (assembled _ _) rfl
      (congrArg (Expr.ident · name) unread)
  | unary node op operand ih =>
    rw [nodes_unary, forall_mem_cons] at representable
    obtain ⟨⟨carries, known⟩, inner⟩ := representable
    obtain ⟨back, ofOperand⟩ := ih inner
    obtain ⟨p, sound, unread, assembled⟩ := payload_of_carries carries
    have changed : ExprPayload.Sound c
        { p with unaryOp := op.code.toNat, operand := operand.toDatum } :=
      { sound with
        unaryOp := Vocabulary.allows_code (by
          rw [Vocabulary.contains, UnaryOp.ofCode_code known, known])
        operand := ofOperand }
    refine toDatum_of_payload changed (assembled _ _) rfl ?_
    rw [ofPayload, ofInt_toNat, UnaryOp.ofCode_code known, back]
    exact congrArg (Expr.unary · op operand) unread
  | binary node op left right leftIH rightIH =>
    rw [nodes_binary, forall_mem_cons, forall_mem_append] at representable
    obtain ⟨⟨carries, known⟩, inLeft, inRight⟩ := representable
    obtain ⟨leftBack, ofLeft⟩ := leftIH inLeft
    obtain ⟨rightBack, ofRight⟩ := rightIH inRight
    obtain ⟨p, sound, unread, assembled⟩ := payload_of_carries carries
    have changed : ExprPayload.Sound c { p with
        binaryOp := op.code.toNat, left := left.toDatum, right := right.toDatum } :=
      { sound with
        binaryOp := Vocabulary.allows_code (by
          rw [Vocabulary.contains, BinaryOp.ofCode_code known, known])
        left := ofLeft
        right := ofRight }
    refine toDatum_of_payload changed (assembled _ _) rfl ?_
    rw [ofPayload, ofInt_toNat, BinaryOp.ofCode_code known, leftBack, rightBack]
    exact congrArg (Expr.binary · op left right) unread
  | unknown node kind => exact (representable _ (mem_singleton.mpr rfl)).elim

end Expr

namespace Stmt

variable {c : Capacity}

theorem ofData_eq_map (items : List Datum) : ofData items = items.map ofDatum := by
  induction items with
  | nil => rfl
  | cons item items ih => exact congrArg (ofDatum item :: ·) ih

def ofPayload (p : StmtPayload) (id : Int) : StmtKind → Stmt
  | .block =>
    .block ⟨UInt32.ofInt id, unreadFields .stmt "block" p.data⟩ (blockOfDatum p.stmts)
  | .var => declaration true
  | .val => declaration false
  | .assign =>
    .assign ⟨UInt32.ofInt id, unreadFields .stmt "assign" p.data⟩ (Expr.ofDatum p.target)
      (Expr.ofDatum p.assigned)
  | .ret =>
    .ret ⟨UInt32.ofInt id, unreadFields .stmt "return" p.data⟩ (Expr.ofDatum p.returned)
  | .cond =>
    .cond ⟨UInt32.ofInt id, unreadFields .stmt "if" p.data⟩ (Expr.ofDatum p.test)
      (ofDatum p.yes) (ofDatum p.no)
  | .loop =>
    .loop ⟨UInt32.ofInt id, unreadFields .stmt "while" p.data⟩ (Expr.ofDatum p.loopTest)
      (ofDatum p.body)
  | .other code => .unknown ⟨UInt32.ofInt id, unreadFields .stmt "" p.data⟩ code
where
  declaration (mutable : Bool) : Stmt :=
    .decl ⟨UInt32.ofInt id, unreadFields .stmt "decl" p.data⟩ mutable p.name
      (Ty.ofCode (UInt8.ofInt p.type)) (Expr.ofDatum p.initial)

theorem ofDatum_record (p : StmtPayload) (id kind : Int) :
    ofDatum (p.record id kind) = ofPayload p id (StmtKind.ofCode (UInt8.ofInt kind)) := rfl

theorem ofDatum_sound (sound : Sound c (.link .stmt) d) :
    (ofDatum d).toDatum = d ∧ ∀ v ∈ (ofDatum d).nodes, v.Representable c := by
  refine stmtRecord_induction ?absent ?record d sound
  case absent => exact ⟨rfl, forall_mem_nil _⟩
  case record =>
    intro p id kind numbered known sound stmtsIH yesIH noIH bodyIH
    obtain ⟨known, coded⟩ := Shape.allows_word known
    have code := code_ofCode.2.2.2.2 known
    obtain ⟨fitting, settled⟩ := sound.fieldsFit
    rw [ofDatum_record]
    rw [Vocabulary.contains] at known
    generalize StmtKind.ofCode (UInt8.ofInt kind) = form at code known
    have decl (mutable : Bool)
        (code : (if mutable then StmtKind.var else .val).code = UInt8.ofInt kind) :
        (ofPayload.declaration p id mutable).toDatum = p.record id kind ∧
          ∀ v ∈ (ofPayload.declaration p id mutable).nodes, v.Representable c := by
      obtain ⟨typeKnown, typeCoded⟩ := Shape.allows_word sound.type
      obtain ⟨initial, inInitial⟩ := Expr.ofDatum_sound sound.initial
      rw [ofPayload.declaration, toDatum, code, code_ofCode.1 typeKnown, ← typeCoded, initial,
        nodes_decl]
      exact ⟨assemble_restored rfl fitting numbered coded rfl, forall_mem_cons.mpr
        ⟨⟨⟨p.data, fitting, settled, rfl⟩, sound.name, typeKnown⟩, inInitial⟩⟩
    cases form with
    | block =>
      obtain missing | ⟨items, listed, few, -⟩ := sound.stmts.items
      · rw [ofPayload, missing, blockOfDatum, toDatum, code, nodes_bare, ← missing]
        · exact ⟨assemble_restored rfl fitting numbered coded rfl,
            forall_mem_singleton.mpr ⟨p.data, fitting, settled, rfl⟩⟩
        · simp
      · have each := stmtsIH items listed
        have back : (items.map ofDatum).map toDatum = items := by
          rw [map_map]
          exact map_eq_self fun item member => (each item member).1
        rw [ofPayload, listed, blockOfDatum, toDatum, code, ofData_eq_map, toData_eq_map, back,
          ← listed, nodes_block]
        refine ⟨assemble_restored rfl fitting numbered coded rfl, forall_mem_cons.mpr
          ⟨⟨⟨p.data, fitting, settled, rfl⟩, ?_⟩, ?_⟩⟩
        · rwa [length_map]
        · rw [forall_mem_nodesOfList, forall_mem_map]
          exact fun item member => (each item member).2
    | var => exact decl true code
    | val => exact decl false code
    | assign =>
      obtain ⟨target, inTarget⟩ := Expr.ofDatum_sound sound.target
      obtain ⟨assigned, inAssigned⟩ := Expr.ofDatum_sound sound.assigned
      rw [ofPayload, toDatum, code, target, assigned, nodes_assign]
      exact ⟨assemble_restored rfl fitting numbered coded rfl, forall_mem_cons.mpr
        ⟨⟨p.data, fitting, settled, rfl⟩, forall_mem_append.mpr ⟨inTarget, inAssigned⟩⟩⟩
    | ret =>
      obtain ⟨returned, inReturned⟩ := Expr.ofDatum_sound sound.returned
      rw [ofPayload, toDatum, code, returned, nodes_ret]
      exact ⟨assemble_restored rfl fitting numbered coded rfl, forall_mem_cons.mpr
        ⟨⟨p.data, fitting, settled, rfl⟩, inReturned⟩⟩
    | cond =>
      obtain ⟨test, inTest⟩ := Expr.ofDatum_sound sound.test
      rw [ofPayload, toDatum, code, test, yesIH.1, noIH.1, nodes_cond]
      exact ⟨assemble_restored rfl fitting numbered coded rfl, forall_mem_cons.mpr
        ⟨⟨p.data, fitting, settled, rfl⟩, forall_mem_append.mpr
          ⟨forall_mem_append.mpr ⟨inTest, yesIH.2⟩, noIH.2⟩⟩⟩
    | loop =>
      obtain ⟨test, inTest⟩ := Expr.ofDatum_sound sound.loopTest
      rw [ofPayload, toDatum, code, test, bodyIH.1, nodes_loop]
      exact ⟨assemble_restored rfl fitting numbered coded rfl, forall_mem_cons.mpr
        ⟨⟨p.data, fitting, settled, rfl⟩, forall_mem_append.mpr ⟨inTest, bodyIH.2⟩⟩⟩
    | other code => cases known

theorem payload_of_carries {node : Node} (carries : node.Carries c .stmt reads) :
    ∃ p : StmtPayload, p.Sound c ∧
      ⟨UInt32.ofInt node.id.toNat, unreadFields .stmt reads p.data⟩ = node ∧
      ∀ kind d, node.assemble .stmt kind [(reads, d)] =
        .record (.number node.id.toNat :: .number kind.toNat ::
          withField (RecordType.stmt.fields.drop 2) reads d p.data) := by
  obtain ⟨data, fitting, settled, unread⟩ := carries
  obtain ⟨p, rfl, sound⟩ := StmtPayload.of_fieldsFit fitting settled
  exact ⟨p, sound, by rw [UInt32.ofInt_toNat, ← unread], assemble_unread rfl fitting unread⟩

theorem toDatum_of_payload {s : Stmt} {id : NodeId} {kind : StmtKind} (sound : p.Sound c)
    (form : s.toDatum = p.record id.toNat kind.code.toNat) (known : kind.isKnown)
    (back : ofPayload p id.toNat kind = s) :
    ofDatum s.toDatum = s ∧ Sound c (.link .stmt) s.toDatum := by
  have decoded := StmtKind.ofCode_code known
  rw [form]
  constructor
  · rw [ofDatum_record, ofInt_toNat, decoded, back]
  · refine sound.record (allows_id id) (Vocabulary.allows_code ?_)
    rw [Vocabulary.contains, decoded, known]

theorem toDatum_sound {s : Stmt} (representable : ∀ v ∈ s.nodes, v.Representable c) :
    ofDatum s.toDatum = s ∧ Sound c (.link .stmt) s.toDatum := by
  induction s using Stmt.induction with
  | absent => exact ⟨rfl, sound_absent _⟩
  | bare node =>
    rw [nodes_bare, forall_mem_singleton] at representable
    obtain ⟨p, sound, unread, assembled⟩ := payload_of_carries representable
    refine toDatum_of_payload (p := { p with stmts := .absent })
      { sound with stmts := ⟨rfl, rfl⟩ } (by rw [toDatum]; exact assembled _ _) rfl ?_
    rw [ofPayload, blockOfDatum]
    · exact congrArg (Stmt.block · none) unread
    · simp
  | block node stmts each =>
    rw [nodes_block, forall_mem_cons, forall_mem_nodesOfList] at representable
    obtain ⟨⟨carries, few⟩, inside⟩ := representable
    obtain ⟨p, sound, unread, assembled⟩ := payload_of_carries carries
    have changed : StmtPayload.Sound c { p with stmts := .list (stmts.map toDatum) [] } := by
      refine { sound with stmts := sound_list ?_ ?_ }
      · rwa [length_map]
      · rw [forall_mem_map]
        exact fun s member => (each s member (inside s member)).2
    have back : (stmts.map toDatum).map ofDatum = stmts := by
      rw [map_map]
      exact map_eq_self fun s member => (each s member (inside s member)).1
    refine toDatum_of_payload changed (by rw [toDatum, toData_eq_map]; exact assembled _ _) rfl ?_
    rw [ofPayload, blockOfDatum, ofData_eq_map, back]
    exact congrArg (Stmt.block · (some stmts)) unread
  | decl node mutable name type value =>
    rw [nodes_decl, forall_mem_cons] at representable
    obtain ⟨⟨carries, named, known⟩, inValue⟩ := representable
    obtain ⟨back, ofValue⟩ := Expr.toDatum_sound inValue
    obtain ⟨p, sound, unread, assembled⟩ := payload_of_carries carries
    have changed : StmtPayload.Sound c
        { p with name, type := type.code.toNat, initial := value.toDatum } :=
      { sound with
        name := named
        type := Vocabulary.allows_code (by
          rw [Vocabulary.contains, Ty.ofCode_code known, known])
        initial := ofValue }
    have declared : ofPayload.declaration
        { p with name, type := type.code.toNat, initial := value.toDatum } node.id.toNat mutable =
        .decl node mutable name type value := by
      rw [ofPayload.declaration, ofInt_toNat, Ty.ofCode_code known, back]
      exact congrArg (Stmt.decl · mutable name type value) unread
    refine toDatum_of_payload changed (by rw [toDatum]; exact assembled _ _) ?_ ?_
    · cases mutable <;> rfl
    · cases mutable <;> exact declared
  | assign node target value =>
    rw [nodes_assign, forall_mem_cons, forall_mem_append] at representable
    obtain ⟨carries, inTarget, inValue⟩ := representable
    obtain ⟨targetBack, ofTarget⟩ := Expr.toDatum_sound inTarget
    obtain ⟨valueBack, ofValue⟩ := Expr.toDatum_sound inValue
    obtain ⟨p, sound, unread, assembled⟩ := payload_of_carries carries
    refine toDatum_of_payload (p := { p with target := target.toDatum, assigned := value.toDatum })
      { sound with target := ofTarget, assigned := ofValue }
      (by rw [toDatum]; exact assembled _ _) rfl ?_
    rw [ofPayload, targetBack, valueBack]
    exact congrArg (Stmt.assign · target value) unread
  | ret node value =>
    rw [nodes_ret, forall_mem_cons] at representable
    obtain ⟨carries, inValue⟩ := representable
    obtain ⟨back, ofValue⟩ := Expr.toDatum_sound inValue
    obtain ⟨p, sound, unread, assembled⟩ := payload_of_carries carries
    refine toDatum_of_payload (p := { p with returned := value.toDatum })
      { sound with returned := ofValue } (by rw [toDatum]; exact assembled _ _) rfl ?_
    rw [ofPayload, back]
    exact congrArg (Stmt.ret · value) unread
  | cond node test yes no yesIH noIH =>
    rw [nodes_cond, forall_mem_cons, forall_mem_append, forall_mem_append]
      at representable
    obtain ⟨carries, ⟨inTest, inYes⟩, inNo⟩ := representable
    obtain ⟨testBack, ofTest⟩ := Expr.toDatum_sound inTest
    obtain ⟨yesBack, ofYes⟩ := yesIH inYes
    obtain ⟨noBack, ofNo⟩ := noIH inNo
    obtain ⟨p, sound, unread, assembled⟩ := payload_of_carries carries
    have changed : StmtPayload.Sound c
        { p with test := test.toDatum, yes := yes.toDatum, no := no.toDatum } :=
      { sound with test := ofTest, yes := ofYes, no := ofNo }
    refine toDatum_of_payload changed (by rw [toDatum]; exact assembled _ _) rfl ?_
    rw [ofPayload, testBack, yesBack, noBack]
    exact congrArg (Stmt.cond · test yes no) unread
  | loop node test body ih =>
    rw [nodes_loop, forall_mem_cons, forall_mem_append] at representable
    obtain ⟨carries, inTest, inBody⟩ := representable
    obtain ⟨testBack, ofTest⟩ := Expr.toDatum_sound inTest
    obtain ⟨bodyBack, ofBody⟩ := ih inBody
    obtain ⟨p, sound, unread, assembled⟩ := payload_of_carries carries
    refine toDatum_of_payload (p := { p with loopTest := test.toDatum, body := body.toDatum })
      { sound with loopTest := ofTest, body := ofBody }
      (by rw [toDatum]; exact assembled _ _) rfl ?_
    rw [ofPayload, testBack, bodyBack]
    exact congrArg (Stmt.loop · test body) unread
  | unknown node kind =>
    rw [nodes_unknown, forall_mem_singleton] at representable
    exact representable.elim

end Stmt

/-! Functions and modules. -/

namespace Func

variable {c : Capacity}

theorem ofDatum_sound (sound : Sound c (.link .func) d) :
    ((ofDatum d).map toDatum).getD .absent = d ∧
      ∀ f, ofDatum d = some f → ∀ v ∈ f.nodes, v.Representable c := by
  obtain ⟨fitting, settled⟩ := sound
  obtain rfl | ⟨data, rfl, fields⟩ := fits_link.mp fitting
  · exact ⟨rfl, fun f missing => by cases missing⟩
  · simp only [RecordType.fields, fieldsFit_cons, fieldsFit_nil, fits_unsigned, fits_word, fits_text]
      at fields
    obtain ⟨_, _, rfl, ⟨id, rfl, numbered⟩, _, _, rfl, ⟨name, rfl, named⟩, _, _, rfl,
      ⟨result, rfl, resultAllowed⟩, body, _, rfl, ofBody, rfl⟩ := fields
    simp only [isSettled, areSettled, Bool.true_and, Bool.and_true] at settled
    obtain ⟨known, coded⟩ := Shape.allows_word resultAllowed
    obtain ⟨back, inBody⟩ := Stmt.ofDatum_sound ⟨ofBody, settled⟩
    constructor
    · rw [ofDatum, Option.map_some, Option.getD_some, toDatum, toNat_ofInt numbered,
        code_ofCode.1 known, ← coded, back]
    · intro f read
      cases read
      rw [nodes_eq, forall_mem_cons]
      exact ⟨⟨known, named⟩, inBody⟩

theorem toDatum_sound (representable : ∀ v ∈ f.nodes, v.Representable c) :
    ofDatum f.toDatum = some f ∧ Sound c (.link .func) f.toDatum := by
  rw [nodes_eq, forall_mem_cons] at representable
  obtain ⟨⟨known, named⟩, inBody⟩ := representable
  obtain ⟨back, fitting, settled⟩ := Stmt.toDatum_sound inBody
  refine ⟨?_, ?_, ?_⟩
  · rw [toDatum, ofDatum, UInt32.ofInt_toNat, ofInt_toNat, Ty.ofCode_code known, back]
  · have typed : (Shape.word .type).allows f.result.code.toNat := Vocabulary.allows_code (by
      rw [Vocabulary.contains, Ty.ofCode_code known, known])
    simp only [toDatum, fits, fieldsFit, RecordType.fields, allows_id, named, typed, fitting,
      decide_true, Bool.and_self]
  · simp only [toDatum, isSettled, areSettled, settled, Bool.and_self]

end Func

namespace Module

variable {c : Capacity}

theorem ofDatum_sound (sound : Sound c (.link .module) d) (read : ofDatum d = some m) :
    m.toDatum = d ∧ m.Representable c := by
  obtain ⟨fitting, settled⟩ := sound
  obtain rfl | ⟨data, rfl, fields⟩ := fits_link.mp fitting
  · cases read
  · simp only [RecordType.fields, fieldsFit_cons, fieldsFit_nil, fits_unsigned, fits_text] at fields
    obtain ⟨_, _, rfl, ⟨id, rfl, numbered⟩, _, _, rfl, ⟨name, rfl, named⟩, funcs, _, rfl, ofFuncs,
      rfl⟩ := fields
    simp only [isSettled, areSettled, Bool.true_and, Bool.and_true] at settled
    obtain rfl | ⟨items, rfl, few, each⟩ := Sound.items ⟨ofFuncs, settled⟩
    · cases read
      refine ⟨?_, named, ?_, forall_mem_nil _⟩
      · rw [toDatum, toNat_ofInt numbered]
      · intro funcs missing
        cases missing
    · cases read
      refine ⟨?_, named, ?_, ?_⟩
      · have back : (items.map Func.ofDatum).map (fun f => (f.map Func.toDatum).getD .absent) =
            items := by
          rw [map_map]
          exact map_eq_self fun item member => (Func.ofDatum_sound (each item member)).1
        rw [toDatum, toNat_ofInt numbered]
        simp only [back]
      · intro funcs listed
        cases listed
        rwa [length_map]
      · rw [forall_mem_nodes]
        intro f member
        obtain ⟨item, inside, read⟩ := mem_map.mp member
        exact (Func.ofDatum_sound (each item inside)).2 f read

theorem toDatum_sound (representable : m.Representable c) :
    ofDatum m.toDatum = some m ∧ Sound c (.link .module) m.toDatum := by
  obtain ⟨id, name, funcs⟩ := m
  obtain ⟨named, few, nodes⟩ := representable
  have whole (funcs : Datum) (fitting : fits c (.links .func) funcs) :
      fits c (.link .module) (.record [.number id.toNat, .text name, funcs]) := by
    have named : c.text name := named
    simp only [fits, fieldsFit, RecordType.fields, allows_id, named, fitting, decide_true,
      Bool.and_self]
  rw [forall_mem_nodes] at nodes
  cases funcs with
  | none =>
    refine ⟨?_, ?_, rfl⟩
    · simp only [toDatum, ofDatum, UInt32.ofInt_toNat]
    · exact whole .absent rfl
  | some entries =>
    have each : ∀ entry ∈ entries,
        Func.ofDatum ((entry.map Func.toDatum).getD .absent) = entry ∧
          Sound c (.link .func) ((entry.map Func.toDatum).getD .absent) := by
      intro entry member
      cases entry with
      | none => exact ⟨rfl, sound_absent _⟩
      | some f => exact Func.toDatum_sound (nodes f member)
    have back : (entries.map fun entry => (entry.map Func.toDatum).getD .absent).map Func.ofDatum =
        entries := by
      rw [map_map]
      exact map_eq_self fun entry member => (each entry member).1
    have listed : Sound c (.links .func)
        (.list (entries.map fun entry => (entry.map Func.toDatum).getD .absent) []) := by
      refine sound_list ?_ (forall_mem_map.mpr fun entry member => (each entry member).2)
      rw [length_map]
      exact few entries rfl
    refine ⟨?_, ?_, ?_⟩
    · rw [toDatum, ofDatum, UInt32.ofInt_toNat]
      simp only [back]
    · exact whole _ listed.1
    · exact Bool.and_eq_true_iff.mpr ⟨listed.2, rfl⟩

end Module

end MiddleEnd
