import MiddleEnd.Interchange.Tree
import MiddleEnd.Proofs.Interchange.Fitting

/-!
The records of statements and expressions. Behind its number and its kind a record has fields for
every kind, the payload.
-/

namespace MiddleEnd

open Interchange List Shape

variable {id kind : Int} {v : Vocabulary} {rest : List Field}

/-! Codes and numbers survive both ways. -/

theorem UInt32.ofInt_toNat (id : UInt32) : UInt32.ofInt id.toNat = id := by
  apply UInt32.toNat_inj.mp
  have := id.toNat_lt
  simp only [UInt32.ofInt, UInt32.toNat_ofNat']
  omega

theorem Ty.ofCode_code (known : type.isKnown) : ofCode type.code = type := by
  cases type with
  | other code => cases known
  | _ => rfl

theorem UnaryOp.ofCode_code (known : op.isKnown) : ofCode op.code = op := by
  cases op with
  | other code => cases known
  | not => rfl

theorem BinaryOp.ofCode_code (known : op.isKnown) : ofCode op.code = op := by
  cases op with
  | other code => cases known
  | _ => rfl

theorem ExprKind.ofCode_code {kind : ExprKind} (known : kind.isKnown) :
    ofCode kind.code = kind := by
  cases kind with
  | other code => cases known
  | _ => rfl

theorem StmtKind.ofCode_code {kind : StmtKind} (known : kind.isKnown) :
    ofCode kind.code = kind := by
  cases kind with
  | other code => cases known
  | _ => rfl

namespace Interchange

theorem toNat_ofInt (allowed : (unsigned 4).allows id) :
    ((UInt32.ofInt id).toNat : Int) = id := by
  have size : Nat.pow 256 4 = 4294967296 := rfl
  simp only [allows, Bool.and_eq_true, decide_eq_true_eq] at allowed
  simp only [UInt32.ofInt, UInt32.toNat_ofNat']
  omega

theorem toInt_ofInt (allowed : (signed 4).allows value) :
    (Int32.ofInt value).toInt = value := by
  have size : Nat.pow 256 4 = 4294967296 := rfl
  simp only [allows, Bool.and_eq_true, decide_eq_true_eq] at allowed
  apply Int32.toInt_ofInt_of_le <;> simp <;> omega

theorem allows_id (id : NodeId) : (unsigned 4).allows id.toNat := by
  have size : Nat.pow 256 4 = 4294967296 := rfl
  have := id.toNat_lt
  simp only [allows, Bool.and_eq_true, decide_eq_true_eq]
  omega

theorem allows_int (value : Int32) : (signed 4).allows value.toInt := by
  have size : Nat.pow 256 4 = 4294967296 := rfl
  have low := value.le_toInt
  have high := value.toInt_lt
  simp only [allows, Bool.and_eq_true, decide_eq_true_eq]
  omega

theorem code_ofCode :
    ((Ty.ofCode code).isKnown → (Ty.ofCode code).code = code) ∧
      ((UnaryOp.ofCode code).isKnown → (UnaryOp.ofCode code).code = code) ∧
      ((BinaryOp.ofCode code).isKnown → (BinaryOp.ofCode code).code = code) ∧
      ((ExprKind.ofCode code).isKnown → (ExprKind.ofCode code).code = code) ∧
      ((StmtKind.ofCode code).isKnown → (StmtKind.ofCode code).code = code) := by
  revert code
  exact @forall_byte _ (by decide +kernel)

/-! What a datum is that fits. -/

section Inversion

variable {c : Capacity}

variable {data : List Datum} {d : Datum} {r : RecordType}

theorem fieldsFit_nil : fieldsFit c [] data ↔ data = [] := by
  cases data <;> simp [fieldsFit]

theorem fieldsFit_cons : fieldsFit c (field :: fields) data ↔
    ∃ d rest, data = d :: rest ∧ fits c field.shape d ∧ fieldsFit c fields rest := by
  cases data <;> simp [fieldsFit]

theorem fits_unsigned : fits c (.unsigned width) d ↔
    ∃ n, d = .number n ∧ (unsigned width).allows n := by
  cases d <;> simp [fits]

theorem fits_signed : fits c (.signed width) d ↔
    ∃ n, d = .number n ∧ (signed width).allows n := by
  cases d <;> simp [fits]

theorem fits_word : fits c (.word v) d ↔ ∃ n, d = .number n ∧ (word v).allows n := by
  cases d <;> simp [fits]

theorem fits_flag : fits c .flag d ↔ ∃ b, d = .flag b := by
  cases d <;> simp [fits, allows]

theorem fits_text : fits c .text d ↔ ∃ t, d = .text t ∧ c.text t := by
  cases d <;> simp [fits, allows]

theorem fits_part : fits c (.record r) d ↔ ∃ data, d = .record data ∧ fieldsFit c r.fields data := by
  cases d <;> simp [fits, allows]

theorem fits_link : fits c (.link r) d ↔
    d = .absent ∨ ∃ data, d = .record data ∧ fieldsFit c r.fields data := by
  cases d <;> simp [fits, allows]

theorem headed_of_fits
    (front : r.fields = ⟨"id", .unsigned 4, false⟩ :: ⟨"kind", .word v, false⟩ :: rest)
    (fitting : fieldsFit c r.fields data) :
    ∃ id kind payload, data = .number id :: .number kind :: payload ∧
      (unsigned 4).allows id ∧ (word v).allows kind ∧ fieldsFit c rest payload := by
  simp only [front, fieldsFit_cons, fits_unsigned, fits_word] at fitting
  obtain ⟨_, _, rfl, ⟨id, rfl, numbered⟩, _, payload, rfl, ⟨kind, rfl, known⟩, behind⟩ := fitting
  exact ⟨id, kind, payload, rfl, numbered, known, behind⟩

/-- A datum that fits and has no elements beyond the end of a list. -/
def Sound (c : Capacity) (shape : Shape) (d : Datum) : Prop := fits c shape d ∧ isSettled d

theorem sound_headed
    (front : r.fields = ⟨"id", .unsigned 4, false⟩ :: ⟨"kind", .word v, false⟩ :: rest)
    (numbered : (unsigned 4).allows id) (known : (word v).allows kind)
    (payload : fieldsFit c rest data ∧ areSettled data) :
    Sound c (.link r) (.record (.number id :: .number kind :: data)) := by
  constructor
  · rw [fits_record (.inr rfl), front]
    exact Bool.and_eq_true_iff.mpr ⟨numbered, Bool.and_eq_true_iff.mpr ⟨known, payload.1⟩⟩
  · exact payload.2

theorem sound_absent (r : RecordType) : Sound c (.link r) .absent := ⟨rfl, rfl⟩

theorem Sound.items (sound : Sound c (.links r) d) :
    d = .absent ∨ ∃ items, d = .list items [] ∧ c.count items.length ∧
      ∀ item ∈ items, Sound c (.link r) item := by
  obtain ⟨fitting, settled⟩ := sound
  cases d with
  | absent => exact .inl rfl
  | list items spare =>
    rw [isSettled, Bool.and_eq_true, List.isEmpty_iff] at settled
    cases settled.1
    simp only [fits, Bool.and_eq_true, allFit_iff] at fitting
    refine .inr ⟨items, rfl, fitting.1.1, fun item member => ⟨fitting.1.2 item member, ?_⟩⟩
    exact areSettled_iff.mp settled.2 item member
  | _ => cases fitting

theorem sound_list (few : c.count items.length) (each : ∀ item ∈ items, Sound c (.link r) item) :
    Sound c (.links r) (.list items []) := by
  constructor
  · simp only [fits, Bool.and_eq_true, allFit_iff]
    exact ⟨⟨few, fun item member => (each item member).1⟩, forall_mem_nil _⟩
  · rw [isSettled, areSettled_iff.mpr fun item member => (each item member).2]
    rfl

end Inversion

/-! What a node carries unread. -/

def withField (fields : List Field) (name : String) (d : Datum) (data : List Datum) : List Datum :=
  List.zipWith (fun field old => if field.name = name then d else old) fields data

/-- What is said in fields other than the one that is read. -/
def saidIn (fields : List Field) (reads : String) (data : List Datum) : List (String × Datum) :=
  (fields.zip data).filterMap fun (field, datum) =>
    if field.name != reads && !field.shape.isZero datum then some (field.name, datum) else none

theorem unreadFields_eq (r : RecordType) (reads : String) (data : List Datum) :
    unreadFields r reads data = saidIn (r.fields.drop 2) reads data := rfl

theorem RecordType.distinct_fields (r : RecordType) : (r.fields.map Field.name).Nodup := by
  cases r <;> decide

section Unread

variable {reads : String}

theorem saidIn_cons (field : Field) (fields : List Field) (d : Datum) (data : List Datum) :
    saidIn (field :: fields) reads (d :: data) =
      if field.name != reads && !field.shape.isZero d then
        (field.name, d) :: saidIn fields reads data
      else saidIn fields reads data := by
  cases said : field.name != reads && !field.shape.isZero d <;>
    simp only [saidIn, zip_cons_cons, filterMap_cons, said, if_true, Bool.false_eq_true, if_false]

theorem lookup_saidIn_of_fresh {fields : List Field} {data : List Datum} {name : String}
    (fresh : name ∉ fields.map Field.name) : (saidIn fields reads data).lookup name = none := by
  rw [lookup_eq_none_iff]
  intro entry member
  obtain ⟨⟨field, d⟩, inside, picked⟩ := mem_filterMap.mp member
  have picked := (Option.ite_none_right_eq_some.mp picked).2
  cases picked
  exact bne_iff_ne.mpr fun same => fresh (same ▸ mem_map_of_mem (of_mem_zip inside).1)

theorem lookup_saidIn (distinct : (fields.map Field.name).Nodup) (fitting : fieldsFit c fields data)
    (d : Datum) :
    (fields.map fun field => if field.name = reads then d
      else ((saidIn fields reads data).lookup field.name).getD field.shape.zero) =
      withField fields reads d data := by
  induction fields generalizing data with
  | nil => rfl
  | cons field fields ih =>
    obtain ⟨old, rest, rfl, here, others⟩ := fieldsFit_cons.mp fitting
    rw [map_cons, nodup_cons] at distinct
    have absent := @lookup_saidIn_of_fresh reads fields rest field.name distinct.1
    have behind : ∀ f ∈ fields, (saidIn (field :: fields) reads (old :: rest)).lookup f.name =
        (saidIn fields reads rest).lookup f.name := by
      intro f member
      have other : f.name ≠ field.name := fun same =>
        distinct.1 (same ▸ mem_map_of_mem member)
      rw [saidIn_cons]
      split
      · rw [lookup_cons, beq_eq_false_iff_ne.mpr other]
      · rfl
    rw [map_cons, withField, zipWith_cons_cons]
    congr 1
    · split
      · rfl
      · next other =>
        rw [saidIn_cons]
        cases zero : field.shape.isZero old with
        | true =>
          rw [Bool.not_true, Bool.and_false, if_neg Bool.false_ne_true, absent]
          exact (eq_zero_of_isZero here zero).symm
        | false =>
          rw [Bool.not_false, Bool.and_true, if_pos (bne_iff_ne.mpr other), lookup_cons,
            beq_self_eq_true]
          rfl
    · rw [map_congr_left fun f member => by rw [behind f member]]
      exact ih distinct.2 others

end Unread

theorem assemble_unread {r : RecordType}
    (front : r.fields = ⟨"id", .unsigned 4, false⟩ :: ⟨"kind", .word v, false⟩ :: rest)
    (fitting : fieldsFit c rest data) {node : Node}
    (carried : node.unread = unreadFields r reads data) (kind : UInt8) (d : Datum) :
    node.assemble r kind [(reads, d)] = .record (.number node.id.toNat :: .number kind.toNat ::
      withField rest reads d data) := by
  have distinct := r.distinct_fields
  rw [front, map_cons, map_cons, nodup_cons, nodup_cons] at distinct
  rw [unreadFields_eq, front, drop_succ_cons, drop_succ_cons, drop_zero] at carried
  have others : ∀ field ∈ rest,
      ((("id", .number node.id.toNat) :: ("kind", .number kind.toNat) :: [(reads, d)] ++
        node.unread).lookup field.name).getD field.shape.zero =
      if field.name = reads then d
      else ((saidIn rest reads data).lookup field.name).getD field.shape.zero := by
    intro field member
    have named := mem_map_of_mem (f := Field.name) member
    have noId : field.name ≠ "id" := fun same =>
      distinct.1 (mem_cons_of_mem _ (same ▸ named))
    have noKind : field.name ≠ "kind" := fun same => distinct.2.1 (same ▸ named)
    rw [cons_append, cons_append, cons_append, nil_append, lookup_cons,
      beq_eq_false_iff_ne.mpr noId, lookup_cons, beq_eq_false_iff_ne.mpr noKind,
      lookup_cons, carried]
    by_cases read : field.name = reads
    · rw [if_pos read, beq_iff_eq.mpr read]
      rfl
    · rw [if_neg read, beq_eq_false_iff_ne.mpr read]
  rw [Node.assemble, front, map_cons, map_cons, map_congr_left others,
    lookup_saidIn distinct.2.2 fitting d]
  rfl

theorem assemble_restored {r : RecordType}
    (front : r.fields = ⟨"id", .unsigned 4, false⟩ :: ⟨"kind", .word v, false⟩ :: rest)
    (fitting : fieldsFit c rest data) (numbered : (unsigned 4).allows id)
    (coded : kind = code.toNat) (same : withField rest reads d data = data) :
    Node.assemble ⟨UInt32.ofInt id, unreadFields r reads data⟩ r code [(reads, d)] =
      .record (.number id :: .number kind :: data) := by
  rw [assemble_unread front fitting rfl, same, coded, toNat_ofInt numbered]

section Payload

variable {c : Capacity}

/-! Expressions. -/

/-- What the record of an expression holds behind its kind. -/
structure ExprPayload where
  value : Int
  truth : Bool
  name : Text
  unaryOp : Int
  operand : Datum
  binaryOp : Int
  left : Datum
  right : Datum

namespace ExprPayload

def data (p : ExprPayload) : List Datum :=
  [.number p.value, .flag p.truth, .text p.name, .record [.number p.unaryOp, p.operand],
    .record [.number p.binaryOp, p.left, p.right]]

structure Sound (c : Capacity) (p : ExprPayload) : Prop where
  value : (signed 4).allows p.value
  name : c.text p.name
  unaryOp : (word .unaryOp).allows p.unaryOp
  operand : Interchange.Sound c (.link .expr) p.operand
  binaryOp : (word .binaryOp).allows p.binaryOp
  left : Interchange.Sound c (.link .expr) p.left
  right : Interchange.Sound c (.link .expr) p.right

theorem Sound.fieldsFit {p : ExprPayload} (sound : p.Sound c) :
    fieldsFit c (RecordType.expr.fields.drop 2) p.data ∧ areSettled p.data := by
  simp [data, RecordType.fields, Interchange.fieldsFit, fits, areSettled, isSettled, sound.value,
    sound.name, sound.unaryOp, sound.operand.1, sound.operand.2, sound.binaryOp, sound.left.1,
    sound.left.2, sound.right.1, sound.right.2]

theorem of_fieldsFit {data : List Datum}
    (fitting : Interchange.fieldsFit c (RecordType.expr.fields.drop 2) data)
    (settled : areSettled data) : ∃ p : ExprPayload, data = p.data ∧ p.Sound c := by
  simp only [RecordType.fields, drop_succ_cons, drop_zero, fieldsFit_cons, fieldsFit_nil,
    fits_part, fits_signed, fits_word, fits_flag, fits_text] at fitting
  obtain ⟨_, _, rfl, ⟨value, rfl, inRange⟩, _, _, rfl, ⟨truth, rfl⟩, _, _, rfl, ⟨name, rfl, named⟩,
    _, _, rfl, ⟨_, rfl, unary⟩, _, _, rfl, ⟨_, rfl, binary⟩, rfl⟩ := fitting
  obtain ⟨_, _, rfl, ⟨unaryOp, rfl, unaryKnown⟩, operand, _, rfl, ofOperand, rfl⟩ := unary
  obtain ⟨_, _, rfl, ⟨binaryOp, rfl, binaryKnown⟩, left, _, rfl, ofLeft, right, _, rfl, ofRight,
    rfl⟩ := binary
  simp only [areSettled, isSettled, Bool.and_eq_true, Bool.true_and, Bool.and_true] at settled
  exact ⟨⟨value, truth, name, unaryOp, operand, binaryOp, left, right⟩, rfl, inRange, named,
    unaryKnown, ⟨ofOperand, settled.1⟩, binaryKnown, ⟨ofLeft, settled.2.1⟩, ⟨ofRight, settled.2.2⟩⟩

def record (p : ExprPayload) (id kind : Int) : Datum := .record (.number id :: .number kind :: p.data)

theorem Sound.record {p : ExprPayload} (sound : p.Sound c) (numbered : (unsigned 4).allows id)
    (known : (word .exprKind).allows kind) :
    Interchange.Sound c (.link .expr) (p.record id kind) :=
  sound_headed rfl numbered known sound.fieldsFit

end ExprPayload

@[elab_as_elim]
theorem exprRecord_induction {motive : Datum → Prop} (absent : motive .absent)
    (record : ∀ (p : ExprPayload) (id kind : Int), (unsigned 4).allows id →
      (word .exprKind).allows kind → p.Sound c → motive p.operand → motive p.left →
      motive p.right → motive (p.record id kind))
    (d : Datum) (sound : Sound c (.link .expr) d) : motive d := by
  induction size : sizeOf d using Nat.strongRecOn generalizing d with
  | ind n ih =>
    obtain rfl | ⟨data, rfl, fitting⟩ := fits_link.mp sound.1
    · exact absent
    · have settled := sound.2
      obtain ⟨id, kind, payload, rfl, numbered, known, behind⟩ := headed_of_fits rfl fitting
      obtain ⟨p, rfl, ofPayload⟩ := ExprPayload.of_fieldsFit behind settled
      have smaller : sizeOf p.operand < n ∧ sizeOf p.left < n ∧ sizeOf p.right < n := by
        simp only [ExprPayload.data, Datum.record.sizeOf_spec, List.cons.sizeOf_spec,
          List.nil.sizeOf_spec] at size
        omega
      exact record p id kind numbered known ofPayload (ih _ smaller.1 _ ofPayload.operand rfl)
        (ih _ smaller.2.1 _ ofPayload.left rfl) (ih _ smaller.2.2 _ ofPayload.right rfl)

/-! Statements. -/

/-- What the record of a statement holds behind its kind. -/
structure StmtPayload where
  stmts : Datum
  name : Text
  type : Int
  initial : Datum
  target : Datum
  assigned : Datum
  returned : Datum
  test : Datum
  yes : Datum
  no : Datum
  loopTest : Datum
  body : Datum

namespace StmtPayload

def data (p : StmtPayload) : List Datum :=
  [.record [p.stmts], .record [.text p.name, .number p.type, p.initial],
    .record [p.target, p.assigned], .record [p.returned], .record [p.test, p.yes, p.no],
    .record [p.loopTest, p.body]]

structure Sound (c : Capacity) (p : StmtPayload) : Prop where
  stmts : Interchange.Sound c (.links .stmt) p.stmts
  name : c.text p.name
  type : (word .type).allows p.type
  initial : Interchange.Sound c (.link .expr) p.initial
  target : Interchange.Sound c (.link .expr) p.target
  assigned : Interchange.Sound c (.link .expr) p.assigned
  returned : Interchange.Sound c (.link .expr) p.returned
  test : Interchange.Sound c (.link .expr) p.test
  yes : Interchange.Sound c (.link .stmt) p.yes
  no : Interchange.Sound c (.link .stmt) p.no
  loopTest : Interchange.Sound c (.link .expr) p.loopTest
  body : Interchange.Sound c (.link .stmt) p.body

theorem Sound.fieldsFit {p : StmtPayload} (sound : p.Sound c) :
    fieldsFit c (RecordType.stmt.fields.drop 2) p.data ∧ areSettled p.data := by
  simp [data, RecordType.fields, Interchange.fieldsFit, fits, areSettled, isSettled, sound.stmts.1,
    sound.stmts.2, sound.name, sound.type, sound.initial.1, sound.initial.2, sound.target.1,
    sound.target.2, sound.assigned.1, sound.assigned.2, sound.returned.1, sound.returned.2,
    sound.test.1, sound.test.2, sound.yes.1, sound.yes.2, sound.no.1, sound.no.2, sound.loopTest.1,
    sound.loopTest.2, sound.body.1, sound.body.2]

theorem of_fieldsFit {data : List Datum}
    (fitting : Interchange.fieldsFit c (RecordType.stmt.fields.drop 2) data)
    (settled : areSettled data) : ∃ p : StmtPayload, data = p.data ∧ p.Sound c := by
  simp only [RecordType.fields, drop_succ_cons, drop_zero, fieldsFit_cons, fieldsFit_nil,
    fits_part, fits_word, fits_text] at fitting
  obtain ⟨_, _, rfl, ⟨_, rfl, block⟩, _, _, rfl, ⟨_, rfl, decl⟩, _, _, rfl, ⟨_, rfl, assign⟩,
    _, _, rfl, ⟨_, rfl, ret⟩, _, _, rfl, ⟨_, rfl, cond⟩, _, _, rfl, ⟨_, rfl, loop⟩, rfl⟩ := fitting
  obtain ⟨stmts, _, rfl, ofStmts, rfl⟩ := block
  obtain ⟨_, _, rfl, ⟨name, rfl, named⟩, _, _, rfl, ⟨type, rfl, typed⟩, initial, _, rfl, ofInitial,
    rfl⟩ := decl
  obtain ⟨target, _, rfl, ofTarget, assigned, _, rfl, ofAssigned, rfl⟩ := assign
  obtain ⟨returned, _, rfl, ofReturned, rfl⟩ := ret
  obtain ⟨test, _, rfl, ofTest, yes, _, rfl, ofYes, no, _, rfl, ofNo, rfl⟩ := cond
  obtain ⟨loopTest, _, rfl, ofLoopTest, body, _, rfl, ofBody, rfl⟩ := loop
  simp only [areSettled, isSettled, Bool.and_eq_true, Bool.true_and, Bool.and_true] at settled
  obtain ⟨settledStmts, settledInitial, ⟨settledTarget, settledAssigned⟩, settledReturned,
    ⟨settledTest, settledYes, settledNo⟩, settledLoopTest, settledBody⟩ := settled
  exact ⟨⟨stmts, name, type, initial, target, assigned, returned, test, yes, no, loopTest, body⟩,
    rfl, ⟨ofStmts, settledStmts⟩, named, typed, ⟨ofInitial, settledInitial⟩,
    ⟨ofTarget, settledTarget⟩, ⟨ofAssigned, settledAssigned⟩, ⟨ofReturned, settledReturned⟩,
    ⟨ofTest, settledTest⟩, ⟨ofYes, settledYes⟩, ⟨ofNo, settledNo⟩, ⟨ofLoopTest, settledLoopTest⟩,
    ⟨ofBody, settledBody⟩⟩

def record (p : StmtPayload) (id kind : Int) : Datum := .record (.number id :: .number kind :: p.data)

theorem Sound.record {p : StmtPayload} (sound : p.Sound c) (numbered : (unsigned 4).allows id)
    (known : (word .stmtKind).allows kind) :
    Interchange.Sound c (.link .stmt) (p.record id kind) :=
  sound_headed rfl numbered known sound.fieldsFit

end StmtPayload

@[elab_as_elim]
theorem stmtRecord_induction {motive : Datum → Prop} (absent : motive .absent)
    (record : ∀ (p : StmtPayload) (id kind : Int), (unsigned 4).allows id →
      (word .stmtKind).allows kind → p.Sound c →
      (∀ items, p.stmts = .list items [] → ∀ item ∈ items, motive item) → motive p.yes →
      motive p.no → motive p.body → motive (p.record id kind))
    (d : Datum) (sound : Sound c (.link .stmt) d) : motive d := by
  induction size : sizeOf d using Nat.strongRecOn generalizing d with
  | ind n ih =>
    obtain rfl | ⟨data, rfl, fitting⟩ := fits_link.mp sound.1
    · exact absent
    · have settled := sound.2
      obtain ⟨id, kind, payload, rfl, numbered, known, behind⟩ := headed_of_fits rfl fitting
      obtain ⟨p, rfl, ofPayload⟩ := StmtPayload.of_fieldsFit behind settled
      have smaller : sizeOf p.stmts < n ∧ sizeOf p.yes < n ∧ sizeOf p.no < n ∧
          sizeOf p.body < n := by
        simp only [StmtPayload.data, Datum.record.sizeOf_spec, List.cons.sizeOf_spec,
          List.nil.sizeOf_spec] at size
        omega
      refine record p id kind numbered known ofPayload ?_ (ih _ smaller.2.1 _ ofPayload.yes rfl)
        (ih _ smaller.2.2.1 _ ofPayload.no rfl) (ih _ smaller.2.2.2 _ ofPayload.body rfl)
      intro items listed item member
      have sound := ofPayload.stmts
      have inside := smaller.1
      rw [listed] at sound inside
      obtain missing | ⟨_, equation, -, each⟩ := sound.items
      · cases missing
      · cases equation
        have less := sizeOf_lt_of_mem member
        rw [Datum.list.sizeOf_spec] at inside
        exact ih _ (by omega) item (each item member) rfl

end Payload

end Interchange

end MiddleEnd
