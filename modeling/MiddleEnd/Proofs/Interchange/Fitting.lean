import MiddleEnd.Proofs.Interchange.Forms

/-!
Data that fit their shape and that a format can carry.
-/

namespace MiddleEnd

open List Option

variable {d : Datum}

def Ty.isKnown : Ty → Bool
  | .other _ => false
  | _ => true

def UnaryOp.isKnown : UnaryOp → Bool
  | .other _ => false
  | _ => true

namespace Interchange

/-- The texts that a format can carry, and the numbers of items that a list may have. -/
structure Capacity where
  text : Text → Bool
  count : Nat → Bool

/-- Lengths take four bytes at most. -/
def Capacity.messagePack : Capacity where
  text t := t.length < 0x100000000
  count n := n < 0x100000000

def Capacity.json : Capacity where
  text := Text.isUtf8
  count _ := true

def Vocabulary.contains (v : Vocabulary) (code : UInt8) : Bool :=
  match v with
  | .type => (Ty.ofCode code).isKnown
  | .unaryOp => (UnaryOp.ofCode code).isKnown
  | .binaryOp => (BinaryOp.ofCode code).isKnown
  | .exprKind => (ExprKind.ofCode code).isKnown
  | .stmtKind => (StmtKind.ofCode code).isKnown

def Shape.allows (shape : Shape) (n : Int) : Bool :=
  match shape with
  | .unsigned width => 0 ≤ n && n < Nat.pow 256 width
  | .signed width => -(Nat.pow 256 width : Int) ≤ n * 2 && n * 2 < Nat.pow 256 width
  | .word v => 0 ≤ n && n < 256 && v.contains (UInt8.ofInt n)
  | _ => false

mutual
/-- Whether a datum is of a shape and a format can carry it. Bytes are no part of a tree: only their
absence fits. -/
def fits (c : Capacity) (shape : Shape) : Datum → Bool
  | .number n => shape.allows n
  | .flag _ => shape = .flag
  | .text t => shape = .text && c.text t
  | .absent =>
    match shape with
    | .bytes | .link _ | .links _ => true
    | _ => false
  | .record data =>
    match shape with
    | .record r | .link r => fieldsFit c r.fields data
    | _ => false
  | .list items spare =>
    match shape with
    | .links r => c.count items.length && allFit c (.link r) items && allFit c (.link r) spare
    | _ => false
def fieldsFit (c : Capacity) : List Field → List Datum → Bool
  | [], [] => true
  | [], _ :: _ => false
  | _ :: _, [] => false
  | field :: fields, datum :: data => fits c field.shape datum && fieldsFit c fields data
def allFit (c : Capacity) (shape : Shape) : List Datum → Bool
  | [] => true
  | datum :: data => fits c shape datum && allFit c shape data
end

/-! Words. -/

theorem forall_byte {holds : UInt8 → Prop} (each : ∀ n < 256, holds (UInt8.ofNat n)) (b : UInt8) :
    holds b := by
  have instantiated := each b.toNat b.toNat_lt
  rwa [UInt8.ofNat_toNat] at instantiated

variable {v : Vocabulary} {code : UInt8}

theorem Vocabulary.word_of_contains (known : v.contains code) :
    v.word code = .ok (v.name code) ∧ v.code (v.name code) = .ok code := by
  revert code
  cases v <;> exact @forall_byte _ (by decide +kernel)

theorem Vocabulary.name_fits (known : v.contains code) :
    Capacity.messagePack.text (v.name code) ∧ Capacity.json.text (v.name code) := by
  revert code
  cases v <;> exact @forall_byte _ (by decide +kernel)

theorem mem_of_lookup {α β : Type} [BEq α] [LawfulBEq α] {a : α} {b : β} {entries : List (α × β)}
    (found : entries.lookup a = some b) : (a, b) ∈ entries := by
  obtain ⟨front, rest, rfl, -⟩ := lookup_eq_some_iff.mp found
  exact mem_append_right _ mem_cons_self

theorem Vocabulary.contains_of_code {word : Text} (found : v.code word = .ok code) :
    v.contains code := by
  have found : v.code? word = some code := by
    unfold Vocabulary.code at found
    split at found
    · next equation =>
      cases found
      exact equation
    · cases found
  cases v with
  | type =>
    obtain ⟨type, named, rfl⟩ := map_eq_some_iff.mp found
    exact (by decide : ∀ entry ∈ Ty.named, (Ty.ofCode entry.2.code).isKnown) _
      (mem_of_lookup named)
  | unaryOp =>
    obtain ⟨op, named, rfl⟩ := map_eq_some_iff.mp found
    exact (by decide : ∀ entry ∈ UnaryOp.named, (UnaryOp.ofCode entry.2.code).isKnown) _
      (mem_of_lookup named)
  | binaryOp =>
    obtain ⟨op, named, rfl⟩ := map_eq_some_iff.mp found
    exact (by decide : ∀ op ∈ BinaryOp.known, (BinaryOp.ofCode op.code).isKnown) _
      (mem_of_find?_eq_some named)
  | exprKind =>
    obtain ⟨kind, named, rfl⟩ := map_eq_some_iff.mp found
    exact (by decide : ∀ kind ∈ ExprKind.known, (ExprKind.ofCode kind.code).isKnown) _
      (mem_of_find?_eq_some named)
  | stmtKind =>
    obtain ⟨kind, named, rfl⟩ := map_eq_some_iff.mp found
    exact (by decide : ∀ kind ∈ StmtKind.known, (StmtKind.ofCode kind.code).isKnown) _
      (mem_of_find?_eq_some named)

theorem Vocabulary.allows_code (known : v.contains code) : (Shape.word v).allows code.toNat := by
  have small := code.toNat_lt
  simp only [Shape.allows, ofInt_toNat, known, Bool.and_true, Bool.and_eq_true, decide_eq_true_eq]
  omega

theorem Shape.allows_word (allowed : (Shape.word v).allows n) :
    v.contains (UInt8.ofInt n) ∧ n = (UInt8.ofInt n).toNat := by
  simp only [Shape.allows, Bool.and_eq_true, decide_eq_true_eq] at allowed
  refine ⟨allowed.2, ?_⟩
  simp only [UInt8.ofInt, UInt8.toNat_ofNat']
  omega

/-! What a shape holds before anything is said. -/

theorem Shape.zero_record (r : RecordType) :
    (Shape.record r).zero = .record (r.fields.map fun field => field.shape.zero) := by
  cases r <;> rfl

theorem fieldsOr_zero {shape : Shape} {r : RecordType} (ofRecord : shape = .record r ∨ shape = .link r) :
    Datum.fieldsOr (Shape.record r).zero shape.zero = r.fields.map fun field => field.shape.zero := by
  rcases ofRecord with rfl | rfl <;> rw [Shape.zero_record] <;> rfl

theorem Shape.isZero_zero (shape : Shape) : shape.isZero shape.zero := by
  cases shape with
  | record r => cases r <;> rfl
  | _ => rfl

section Zero

variable {c : Capacity}

theorem allows_zero (shape : Shape) (holds : shape.zero = .number 0) : shape.allows 0 := by
  have positive (width : Nat) : (0 : Int) < Nat.pow 256 width :=
    Int.natCast_pos.mpr (Nat.pow_pos (by decide))
  cases shape with
  | unsigned width => simp [Shape.allows]
  | signed width =>
    have := positive width
    simp only [Shape.allows, Bool.and_eq_true, decide_eq_true_eq]
    omega
  | word v => cases v <;> rfl
  | _ => cases holds

theorem zero_fits (empty : c.text []) (shape : Shape) : fits c shape shape.zero := by
  cases shape with
  | unsigned width => exact allows_zero (.unsigned width) rfl
  | signed width => exact allows_zero (.signed width) rfl
  | word v => exact allows_zero (.word v) rfl
  | flag | bytes | link r | links r => rfl
  | text => exact empty
  | record r =>
    have words (v : Vocabulary) : (Shape.word v).allows 0 := allows_zero (.word v) rfl
    cases r <;>
      simp [Shape.zero, Shape.zeroWithin, RecordType.fields, fits, fieldsFit, empty, words] <;>
      decide

mutual
theorem eq_zero_of_isZero {d : Datum} (fitting : fits c shape d) (zero : shape.isZero d) :
    d = shape.zero := by
  cases d with
  | number n =>
    cases beq_iff_eq.mp zero
    cases shape with
    | unsigned | signed | word => rfl
    | _ => cases fitting
  | flag b =>
    cases of_decide_eq_true fitting
    cases b with
    | false => rfl
    | true => cases zero
  | text t =>
    cases of_decide_eq_true (Bool.and_eq_true_iff.mp fitting).1
    cases t with
    | nil => rfl
    | cons => cases zero
  | absent =>
    cases shape with
    | bytes | link | links => rfl
    | _ => cases fitting
  | record data =>
    cases shape with
    | record r =>
      rw [Shape.zero_record, eq_zeros_of_areZero fitting zero]
    | _ => cases zero
  | list items spare => cases zero

theorem eq_zeros_of_areZero (fitting : fieldsFit c fields data) (zero : areZero fields data) :
    data = fields.map fun field => field.shape.zero := by
  cases data with
  | nil =>
    cases fields with
    | nil => rfl
    | cons => cases fitting
  | cons d data =>
    cases fields with
    | nil => cases fitting
    | cons field fields =>
      rw [fieldsFit, Bool.and_eq_true] at fitting
      rw [areZero, Bool.and_eq_true] at zero
      rw [map_cons, ← eq_zero_of_isZero fitting.1 zero.1, ← eq_zeros_of_areZero fitting.2 zero.2]
end

end Zero

/-! Lists without elements beyond their end. -/

mutual
def isSettled : Datum → Bool
  | .record data => areSettled data
  | .list items spare => spare.isEmpty && areSettled items
  | _ => true
def areSettled : List Datum → Bool
  | [] => true
  | datum :: data => isSettled datum && areSettled data
end

mutual
theorem isSettled_settle (d : Datum) : isSettled d.settle := by
  cases d with
  | number | flag | text | absent => rfl
  | record data => exact areSettled_settleAll data
  | list items spare =>
    rw [Datum.settle, isSettled, areSettled_settleAll items]
    rfl

theorem areSettled_settleAll (data : List Datum) : areSettled (Datum.settleAll data) := by
  cases data with
  | nil => rfl
  | cons d data =>
    rw [Datum.settleAll, areSettled, isSettled_settle d, areSettled_settleAll data]
    rfl
end

mutual
theorem settle_eq_self {d : Datum} (settled : isSettled d) : d.settle = d := by
  cases d with
  | number | flag | text | absent => rfl
  | record data => rw [Datum.settle, settleAll_eq_self settled]
  | list items spare =>
    rw [isSettled, Bool.and_eq_true, List.isEmpty_iff] at settled
    rw [Datum.settle, settleAll_eq_self settled.2, settled.1]

theorem settleAll_eq_self (settled : areSettled data) : Datum.settleAll data = data := by
  cases data with
  | nil => rfl
  | cons d data =>
    rw [areSettled, Bool.and_eq_true] at settled
    rw [Datum.settleAll, settle_eq_self settled.1, settleAll_eq_self settled.2]
end

theorem areSettled_iff : areSettled data ↔ ∀ d ∈ data, isSettled d := by
  induction data with
  | nil => simp [areSettled]
  | cons d data ih => simp [areSettled, ih]

theorem isSettled_zero (shape : Shape) : isSettled shape.zero := by
  cases shape with
  | record r => cases r <;> rfl
  | _ => rfl

@[simp] theorem length_settleAll (data : List Datum) :
    (Datum.settleAll data).length = data.length := by
  induction data with
  | nil => rfl
  | cons d data ih => rw [Datum.settleAll, length_cons, ih, length_cons]

section Settle

variable {c : Capacity}

mutual
theorem fits_settle {d : Datum} (fitting : fits c shape d) : fits c shape d.settle := by
  cases d with
  | number | flag | text | absent => exact fitting
  | record data =>
    rw [Datum.settle]
    cases shape with
    | record | link => exact fieldsFit_settleAll fitting
    | _ => cases fitting
  | list items spare =>
    cases shape with
    | links r =>
      simp only [fits, Bool.and_eq_true] at fitting
      simp only [Datum.settle, fits, length_settleAll, fitting.1.1, allFit_settleAll fitting.1.2,
        allFit, Bool.and_true]
    | _ => cases fitting

theorem fieldsFit_settleAll (fitting : fieldsFit c fields data) :
    fieldsFit c fields (Datum.settleAll data) := by
  cases data with
  | nil => exact fitting
  | cons d data =>
    cases fields with
    | nil => cases fitting
    | cons field fields =>
      rw [fieldsFit, Bool.and_eq_true] at fitting
      rw [Datum.settleAll, fieldsFit, fits_settle fitting.1, fieldsFit_settleAll fitting.2]
      rfl

theorem allFit_settleAll (fitting : allFit c shape data) :
    allFit c shape (Datum.settleAll data) := by
  cases data with
  | nil => rfl
  | cons d data =>
    rw [allFit, Bool.and_eq_true] at fitting
    rw [Datum.settleAll, allFit, fits_settle fitting.1, allFit_settleAll fitting.2]
    rfl
end

theorem allFit_iff : allFit c shape data ↔ ∀ d ∈ data, fits c shape d := by
  induction data with
  | nil => simp [allFit]
  | cons d data ih => simp [allFit, ih]

end Settle

/-! What reading starts from: the record or the list that is there, or nothing said yet. -/

/-- Bytes are no part of what has the shape. -/
def Shape.isTree : Shape → Bool
  | .bytes => false
  | .record r | .link r | .links r => r ≠ .cacheEntry
  | _ => true

theorem RecordType.isTree_fields {r : RecordType} (tree : (Shape.record r).isTree) :
    ∀ field ∈ r.fields, field.shape.isTree := by
  revert tree
  cases r <;> decide

section Begun

variable {c : Capacity}

variable {shape : Shape} {r : RecordType} {data : List Datum}

theorem fits_record (ofRecord : shape = .record r ∨ shape = .link r) (data : List Datum) :
    fits c shape (.record data) = fieldsFit c r.fields data := by
  rcases ofRecord with rfl | rfl <;> rfl

theorem record_of_fits (fitting : fits c shape (.record data)) :
    ∃ r, (shape = .record r ∨ shape = .link r) ∧ fieldsFit c r.fields data := by
  cases shape with
  | record r => exact ⟨r, .inl rfl, fitting⟩
  | link r => exact ⟨r, .inr rfl, fitting⟩
  | _ => cases fitting

theorem fieldsOr_fits (empty : c.text []) (ofRecord : shape = .record r ∨ shape = .link r)
    (begun : fits c shape old) :
    fieldsFit c r.fields (Datum.fieldsOr (Shape.record r).zero old) := by
  have zeros := zero_fits empty (.record r)
  rw [Shape.zero_record] at zeros ⊢
  cases old with
  | record data => rwa [fits_record ofRecord] at begun
  | _ => exact zeros

theorem elements_fit (begun : fits c (.links r) old) :
    ∀ d ∈ Datum.elements old, fits c (.link r) d := by
  cases old with
  | list items spare =>
    simp only [fits, Bool.and_eq_true, allFit_iff] at begun
    exact forall_mem_append.mpr ⟨begun.1.2, begun.2⟩
  | _ => exact forall_mem_nil _

/-- A field has a datum that fits, and stays among fitting ones where another that fits replaces it. -/
theorem fieldsFit_at (fitting : fieldsFit c fields data) (found : fields[position]? = some field) :
    fits c field.shape (data.getD position .absent) ∧
      ∀ d, fits c field.shape d → fieldsFit c fields (data.set position d) := by
  induction fields generalizing data position with
  | nil => cases found
  | cons first fields ih =>
    cases data with
    | nil => cases fitting
    | cons d data =>
      obtain ⟨here, others⟩ := Bool.and_eq_true_iff.mp fitting
      cases position with
      | zero =>
        cases found
        exact ⟨here, fun d fits => Bool.and_eq_true_iff.mpr ⟨fits, others⟩⟩
      | succ position =>
        obtain ⟨there, replaced⟩ := ih others found
        exact ⟨there, fun d fits => Bool.and_eq_true_iff.mpr ⟨here, replaced d fits⟩⟩

end Begun

/-! Fields are found by their names, one behind the other. -/

section Position

variable {done fields : List Field} {field : Field}

theorem findIdx?_name
    (distinct : ((done ++ field :: fields).map fun f => Text.ofString f.name).Nodup) :
    ((done ++ field :: fields).findIdx? fun f => Text.ofString f.name == Text.ofString field.name) =
      some done.length := by
  rw [map_append, nodup_append] at distinct
  have fresh : done.findIdx? (fun f => Text.ofString f.name == Text.ofString field.name) = none := by
    rw [List.findIdx?_eq_none_iff]
    intro f member
    exact beq_eq_false_iff_ne.mpr fun same =>
      distinct.2.2 _ (mem_map_of_mem member) _ mem_cons_self same
  rw [List.findIdx?_append, fresh, List.findIdx?_cons, beq_self_eq_true]
  simp

theorem shape_at :
    ((done ++ field :: fields)[done.length]?.map Field.shape).getD .flag = field.shape := by
  simp

theorem datum_at (length : before.length = done.length) :
    (before ++ d :: data).getD done.length .absent = d := by
  simp [← length]

theorem set_at (length : before.length = done.length) :
    (before ++ d :: data).set done.length d' = before ++ d' :: data := by
  simp [← length]

end Position

end Interchange

end MiddleEnd
