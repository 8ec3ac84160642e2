import MiddleEnd.Proofs.Interchange.Fitting
import MiddleEnd.Proofs.MessagePack.Room

/-!
Data in MessagePack: a datum that fits has a form that reads as the datum, and whatever reads as a
record fits.
-/

namespace MiddleEnd.Interchange

open List Shape
open MessagePack (Value areWritable arePairsWritable areRoomy arePairsRoomy)

variable {fields : List Field}

/-- Numbers have a width that the format knows. -/
def Shape.hasWidth : Shape → Bool
  | .unsigned width | .signed width => width ∈ [1, 2, 4, 8]
  | _ => true

/-- What the format relies on in a field: its number has a width, no list is left out, and its name
has room. -/
structure Field.Regular (field : Field) : Prop where
  wide : field.shape.hasWidth
  noList : field.optional → ∀ r, field.shape ≠ .links r
  named : (Text.ofString field.name).length < 0x100000000

theorem RecordType.regular (r : RecordType) : ∀ field ∈ r.fields, field.Regular := by
  have noList : ∀ field ∈ r.fields, field.optional → ∀ r', field.shape ≠ .links r' := by
    cases r <;> simp [RecordType.fields]
  have wide : ∀ field ∈ r.fields, field.shape.hasWidth ∧
      (Text.ofString field.name).length < 0x100000000 := by
    cases r <;> decide
  exact fun field member => ⟨(wide field member).1, noList field member, (wide field member).2⟩

section LeftOut

variable {c : Capacity}

mutual
theorem eq_zero_of_isEmptyField (fitting : fits c shape d) (noList : ∀ r, shape ≠ .links r)
    (empty : isEmptyField shape d) : d = shape.zero := by
  cases d with
  | number n => exact eq_zero_of_isZero fitting empty
  | flag b => exact eq_zero_of_isZero fitting empty
  | text t => exact eq_zero_of_isZero fitting empty
  | absent => exact eq_zero_of_isZero fitting empty
  | record data =>
    cases shape with
    | record r =>
      rw [zero_record,
        eq_zeros_of_areEmptyFields (fun field member => (r.regular field member).noList) fitting
          empty]
    | _ => cases empty
  | list items spare =>
    cases shape with
    | links r => exact absurd rfl (noList r)
    | _ => cases fitting

theorem eq_zeros_of_areEmptyFields {fields : List Field}
    (noList : ∀ field ∈ fields, field.optional → ∀ r, field.shape ≠ .links r)
    (fitting : fieldsFit c fields data) (empty : areEmptyFields fields data) :
    data = fields.map fun field => field.shape.zero := by
  cases data with
  | nil =>
    cases fields with
    | nil => rfl
    | cons => cases fitting
  | cons d data =>
    cases fields with
    | nil => cases fitting
    | cons field fields =>
      obtain ⟨here, others⟩ := forall_mem_cons.mp noList
      rw [fieldsFit, Bool.and_eq_true] at fitting
      rw [areEmptyFields, Bool.and_eq_true, Bool.and_eq_true] at empty
      rw [map_cons, ← eq_zero_of_isEmptyField fitting.1 (here empty.1.1) empty.1.2,
        ← eq_zeros_of_areEmptyFields others fitting.2 empty.2]
end

theorem eq_zero_of_isLeftOut {field : Field} (fitting : fits c field.shape d)
    (noList : field.optional → ∀ r, field.shape ≠ .links r) (leftOut : isLeftOut field d) :
    d = field.shape.zero := by
  rw [isLeftOut, Bool.and_eq_true] at leftOut
  exact eq_zero_of_isEmptyField fitting (noList leftOut.1) leftOut.2

end LeftOut

/-! A datum that fits has a form, and the form is read back. -/

variable {shape : Shape} {n : Int} {r : RecordType} {data : List Datum}
  {pairs : List (Value × Value)} {d : Datum}

theorem truncated?_eq_self (allowed : shape.allows n) (noWord : ∀ v, shape ≠ .word v) :
    truncated? shape n = some n := by
  cases shape with
  | unsigned width =>
    simp only [allows, Bool.and_eq_true, decide_eq_true_eq] at allowed
    exact congrArg some (Int.emod_eq_of_lt allowed.1 allowed.2)
  | signed width =>
    simp only [allows, Bool.and_eq_true, decide_eq_true_eq] at allowed
    exact congrArg some (Int.bmod_eq_of_le_mul_two allowed.1 allowed.2)
  | word v => exact absurd rfl (noWord v)
  | _ => cases allowed

theorem number_form (allowed : shape.allows n) (wide : shape.hasWidth) (old : Datum) :
    ∃ v, toValue shape (.number n) = .ok v ∧ v.isWritable ∧
      fillValue shape old v = .ok (.number n) := by
  cases shape with
  | unsigned width =>
    have bounds := allowed
    simp only [allows, Bool.and_eq_true, decide_eq_true_eq] at bounds
    have back : (n.toNat : Int) = n := Int.toNat_of_nonneg bounds.1
    refine ⟨.uint width n.toNat, rfl, ?_, ?_⟩
    · simp only [Value.isWritable, Bool.and_eq_true, decide_eq_true_eq]
      exact ⟨of_decide_eq_true wide, by rw [← Int.ofNat_lt, back]; exact bounds.2⟩
    · rw [fillValue, back, truncated?_eq_self allowed (by simp)]
  | signed width =>
    have bounds := allowed
    simp only [allows, Bool.and_eq_true, decide_eq_true_eq] at bounds
    refine ⟨.sint width n, rfl, ?_, ?_⟩
    · simp only [Value.isWritable, Bool.and_eq_true, decide_eq_true_eq]
      exact ⟨⟨of_decide_eq_true wide, bounds.1⟩, bounds.2⟩
    · rw [fillValue, truncated?_eq_self allowed (by simp)]
  | word v =>
    obtain ⟨known, code⟩ := allows_word allowed
    obtain ⟨spelled, read⟩ := Vocabulary.word_of_contains known
    refine ⟨.bin (v.name (UInt8.ofInt n)), ?_, ?_, ?_⟩
    · rw [toValue, spelled]
      rfl
    · exact (Vocabulary.name_fits known).1
    · rw [fillValue, fillText, read]
      exact congrArg (fun n => Except.ok (Datum.number n)) code.symm
  | _ => cases allowed

theorem toValue_record (ofRecord : shape = .record r ∨ shape = .link r)
    (formed : toPairs r.fields data = .ok pairs) :
    toValue shape (.record data) = .ok (.map pairs) := by
  rcases ofRecord with rfl | rfl <;> rw [toValue, formed] <;> rfl

theorem fillValue_map (ofRecord : shape = .record r ∨ shape = .link r)
    (filled : fillPairs r.fields (r.fields.map fun field => field.shape.zero) pairs = .ok data) :
    fillValue shape shape.zero (.map pairs) = .ok (.record data) := by
  have begun := fieldsOr_zero ofRecord
  rcases ofRecord with rfl | rfl <;> rw [fillValue, begun, filled] <;> rfl

theorem fillPairs_cons {done : List Field}
    (distinct : ((done ++ field :: fields).map fun f => Text.ofString f.name).Nodup)
    (length : before.length = done.length)
    (filled : fillValue field.shape field.shape.zero value = .ok d) :
    fillPairs (done ++ field :: fields) (before ++ field.shape.zero :: data)
        ((.str field.name, value) :: pairs) =
      fillPairs (done ++ field :: fields) (before ++ d :: data) pairs := by
  rw [fillPairs, keyText?]
  simp only [findIdx?_name distinct, shape_at, datum_at length, filled, set_at length, ok_bind]

mutual
theorem value_of_fits {shape : Shape} {d : Datum} (fitting : fits .messagePack shape d)
    (wide : shape.hasWidth) : ∃ v, toValue shape d = .ok v ∧ v.isWritable ∧
      fillValue shape shape.zero v = .ok d.settle := by
  cases d with
  | number n => exact number_form fitting wide _
  | flag b =>
    cases of_decide_eq_true fitting
    exact ⟨.bool b, rfl, rfl, rfl⟩
  | text t =>
    rw [fits, Bool.and_eq_true] at fitting
    cases of_decide_eq_true fitting.1
    exact ⟨.str t, rfl, fitting.2, rfl⟩
  | absent =>
    cases shape with
    | bytes | link | links => exact ⟨.nil, rfl, rfl, rfl⟩
    | _ => cases fitting
  | record data =>
    obtain ⟨r, ofRecord, fitting⟩ := record_of_fits fitting
    obtain ⟨pairs, formed, writable, few, filled⟩ :=
      @pairs_of_fits [] r.fields [] data r.distinct_names r.regular rfl fitting
    refine ⟨.map pairs, toValue_record ofRecord formed, ?_, fillValue_map ofRecord filled⟩
    have short : r.fields.length < 0x100000000 := by cases r <;> decide
    simp only [Value.isWritable, writable, Bool.and_true, decide_eq_true_eq]
    omega
  | list items spare =>
    cases shape with
    | links r =>
      simp only [fits, Bool.and_eq_true] at fitting
      obtain ⟨values, formed, writable, length, filled⟩ := values_of_fits fitting.1.2
      refine ⟨.array values 0, ?_, ?_, ?_⟩
      · rw [toValue, formed]
        rfl
      · rw [Value.isWritable, writable, length]
        exact Bool.and_eq_true_iff.mpr ⟨fitting.1.1, rfl⟩
      · have begun : Datum.elements (links r).zero = [] := rfl
        rw [fillValue, begun, filled]
        simp only [ok_bind, drop_nil]
        rfl
    | _ => cases fitting

theorem pairs_of_fits {done fields : List Field} {before data : List Datum}
    (distinct : ((done ++ fields).map fun f => Text.ofString f.name).Nodup)
    (regular : ∀ field ∈ fields, field.Regular) (length : before.length = done.length)
    (fitting : fieldsFit .messagePack fields data) :
    ∃ pairs, toPairs fields data = .ok pairs ∧ arePairsWritable pairs ∧
      pairs.length ≤ fields.length ∧
      fillPairs (done ++ fields) (before ++ fields.map fun field => field.shape.zero) pairs =
        .ok (before ++ Datum.settleAll data) := by
  cases data with
  | nil =>
    cases fields with
    | nil => exact ⟨[], rfl, rfl, Nat.le_refl _, rfl⟩
    | cons => cases fitting
  | cons d data =>
    cases fields with
    | nil => cases fitting
    | cons field fields =>
      obtain ⟨here, others⟩ := forall_mem_cons.mp regular
      rw [fieldsFit, Bool.and_eq_true] at fitting
      have again (d : Datum) (distinct) := @pairs_of_fits (done ++ [field]) fields (before ++ [d])
        data distinct others (by simp [length]) fitting.2
      simp only [append_assoc, singleton_append] at again
      rw [toPairs_cons]
      by_cases leftOut : isLeftOut field d
      · have zero := eq_zero_of_isLeftOut fitting.1 here.noList leftOut
        obtain ⟨pairs, formed, writable, few, filled⟩ := again field.shape.zero distinct
        refine ⟨pairs, ?_, writable, Nat.le_succ_of_le few, ?_⟩
        · rw [if_pos leftOut, formed]
        · rw [map_cons, filled, Datum.settleAll, zero, settle_eq_self (isSettled_zero field.shape)]
      · obtain ⟨v, valued, writableHere, filledHere⟩ := value_of_fits fitting.1 here.wide
        obtain ⟨pairs, formed, writable, few, filled⟩ := again d.settle distinct
        refine ⟨(.str field.name, v) :: pairs, ?_, ?_, Nat.succ_le_succ few, ?_⟩
        · rw [if_neg leftOut, valued, formed]
          rfl
        · rw [arePairsWritable, writableHere, writable, Value.isWritable, decide_eq_true here.named]
          rfl
        · rw [map_cons, fillPairs_cons distinct length filledHere, filled, Datum.settleAll]

theorem values_of_fits {r : RecordType} {items : List Datum}
    (fitting : allFit .messagePack (.link r) items) :
    ∃ values, toValues (.link r) items = .ok values ∧ areWritable values ∧
      values.length = items.length ∧ fillValues (.link r) [] values = .ok (Datum.settleAll items) := by
  cases items with
  | nil => exact ⟨[], rfl, rfl, rfl, rfl⟩
  | cons d items =>
    rw [allFit, Bool.and_eq_true] at fitting
    obtain ⟨v, valued, writableHere, filledHere⟩ := value_of_fits fitting.1 rfl
    obtain ⟨values, formed, writable, length, filled⟩ := values_of_fits fitting.2
    refine ⟨v :: values, ?_, ?_, congrArg (· + 1) length, ?_⟩
    · rw [toValues, valued, formed]
      rfl
    · rw [areWritable, writableHere, writable]
      rfl
    · have absent : List.headD [] Datum.absent = (link r).zero := rfl
      rw [fillValues, absent, filledHere, ok_bind, tail_nil, filled]
      rfl
end

theorem readMessagePack_write (fitting : fits .messagePack (.record r) d) :
    ∃ t, writeMessagePack r d = .ok t ∧ readMessagePack r t = .ok d.settle := by
  obtain ⟨v, formed, writable, filled⟩ := value_of_fits fitting rfl
  refine ⟨v.write, ?_, ?_⟩
  · rw [writeMessagePack, formed]
    rfl
  · rw [readMessagePack, MessagePack.read_write writable, filled, ok_map,
      settle_eq_self (isSettled_settle d)]

/-! Whatever is read fits. -/

theorem allows_of_truncated? (cut : truncated? shape n = some k) : shape.allows k := by
  have positive (width : Nat) : 0 < Nat.pow 256 width := Nat.pow_pos (by decide)
  cases shape with
  | unsigned width =>
    cases cut
    have some := Int.natCast_pos.mpr (positive width)
    simp only [allows, Bool.and_eq_true, decide_eq_true_eq]
    exact ⟨Int.emod_nonneg _ (Int.ne_of_gt some), Int.emod_lt_of_pos _ some⟩
  | signed width =>
    cases cut
    have low := @Int.le_bmod n _ (positive width)
    have high := @Int.bmod_lt n _ (positive width)
    simp only [allows, Bool.and_eq_true, decide_eq_true_eq]
    omega
  | _ => cases cut

theorem fillText_fits (tree : shape.isTree) (short : t.length < 0x100000000)
    (filled : fillText shape t = .ok d) : fits .messagePack shape d := by
  cases shape with
  | text =>
    cases filled
    exact decide_eq_true short
  | bytes => cases tree
  | word v =>
    rw [fillText] at filled
    split at filled
    · next code found =>
      cases filled
      rw [fits]
      exact Vocabulary.allows_code (Vocabulary.contains_of_code found)
    · cases filled
  | _ => cases filled

theorem fillValue_array (ofRecord : shape = .record r ∨ shape = .link r) {old : Datum}
    (filled : fillValue shape old (.array items missing) = .ok d) :
    d = (record r).zero ∨ ∃ data, d = .record data ∧
      fillFields r.fields (Datum.fieldsOr (record r).zero old) items = .ok data := by
  have opened : (if items.isEmpty then .ok (record r).zero
      else if items.length + missing = r.fields.length then do
        let data ← fillFields r.fields (Datum.fieldsOr (record r).zero old) items
        .ok (.record data)
      else .error .malformed) = Except.ok d := by
    rcases ofRecord with rfl | rfl <;> rw [fillValue] at filled <;> exact filled
  split at opened
  · cases opened
    exact .inl rfl
  split at opened
  · obtain ⟨data, each, equation⟩ := bind_eq_ok.mp opened
    cases equation
    exact .inr ⟨data, rfl, each⟩
  · cases opened

theorem fillValue_pairs (ofRecord : shape = .record r ∨ shape = .link r) {old : Datum}
    (filled : fillValue shape old (.map pairs) = .ok d) :
    ∃ data, d = .record data ∧
      fillPairs r.fields (Datum.fieldsOr (record r).zero old) pairs = .ok data := by
  have opened : (do
      let data ← fillPairs r.fields (Datum.fieldsOr (record r).zero old) pairs
      .ok (.record data)) = Except.ok d := by
    rcases ofRecord with rfl | rfl <;> rw [fillValue] at filled <;> exact filled
  obtain ⟨data, each, equation⟩ := bind_eq_ok.mp opened
  cases equation
  exact ⟨data, rfl, each⟩

theorem fillPairs_pair (filled : fillPairs fields old ((key, value) :: pairs) = .ok data) :
    fillPairs fields old pairs = .ok data ∨
      ∃ position field d, fields[position]? = some field ∧
        fillValue field.shape (old.getD position .absent) value = .ok d ∧
        fillPairs fields (old.set position d) pairs = .ok data := by
  rw [fillPairs] at filled
  split at filled
  · cases filled
  · next name named =>
    split at filled
    · split at filled
      · exact .inl filled
      · cases filled
    · next position found =>
      obtain ⟨bound, -⟩ := List.findIdx?_eq_some_iff_getElem.mp found
      have here := List.getElem?_eq_getElem bound
      obtain ⟨d, ofField, others⟩ := bind_eq_ok.mp filled
      rw [here] at ofField
      exact .inr ⟨position, _, d, here, ofField, others⟩

mutual
theorem fillValue_fits {shape : Shape} {old d : Datum} (roomy : v.isRoomy) (tree : shape.isTree)
    (begun : fits .messagePack shape old) (filled : fillValue shape old v = .ok d) :
    fits .messagePack shape d := by
  cases v with
  | nil =>
    cases filled
    exact zero_fits rfl shape
  | bool b =>
    cases shape with
    | flag =>
      cases filled
      rfl
    | _ => cases filled
  | uint width n | sint width n =>
    rw [fillValue] at filled
    split at filled
    · next cut =>
      cases filled
      exact allows_of_truncated? cut
    · cases filled
  | str t | bin t => exact fillText_fits tree (of_decide_eq_true roomy) filled
  | array items missing =>
    rw [Value.isRoomy, Bool.and_eq_true] at roomy
    have asRecord (r : RecordType) (ofRecord : shape = .record r ∨ shape = .link r)
        (tree : (record r).isTree) : fits .messagePack shape d := by
      obtain rfl | ⟨data, rfl, each⟩ := fillValue_array ofRecord filled
      · have zeros := @zero_fits .messagePack rfl (.record r)
        rw [zero_record] at zeros ⊢
        rwa [fits_record ofRecord]
      · rw [fits_record ofRecord]
        exact fillFields_fit roomy.2 (RecordType.isTree_fields tree)
          (fieldsOr_fits rfl ofRecord begun) each
    cases shape with
    | links r =>
      obtain ⟨data, each, equation⟩ := bind_eq_ok.mp filled
      cases equation
      have elements := elements_fit begun
      obtain ⟨length, fitting⟩ := fillValues_fit roomy.2 tree elements each
      simp only [fits, Bool.and_eq_true, allFit_iff, length]
      exact ⟨⟨roomy.1, fitting⟩, fun d member => elements d (mem_of_mem_drop member)⟩
    | record r => exact asRecord r (.inl rfl) tree
    | link r => exact asRecord r (.inr rfl) tree
    | _ => cases filled
  | map pairs =>
    have asRecord (r : RecordType) (ofRecord : shape = .record r ∨ shape = .link r)
        (tree : (record r).isTree) : fits .messagePack shape d := by
      obtain ⟨data, rfl, each⟩ := fillValue_pairs ofRecord filled
      rw [fits_record ofRecord]
      exact fillPairs_fit roomy (RecordType.isTree_fields tree)
        (fieldsOr_fits rfl ofRecord begun) each
    cases shape with
    | record r => exact asRecord r (.inl rfl) tree
    | link r => exact asRecord r (.inr rfl) tree
    | _ => cases filled
  | float | ext | broken => cases filled

theorem fillValues_fit {r : RecordType} {old data : List Datum} {items : List Value}
    (roomy : areRoomy items) (tree : (link r).isTree)
    (begun : ∀ d ∈ old, fits .messagePack (.link r) d)
    (filled : fillValues (.link r) old items = .ok data) :
    data.length = items.length ∧ ∀ d ∈ data, fits .messagePack (.link r) d := by
  cases items with
  | nil =>
    cases filled
    exact ⟨rfl, forall_mem_nil _⟩
  | cons item items =>
    rw [areRoomy, Bool.and_eq_true] at roomy
    obtain ⟨d, here, filled⟩ := bind_eq_ok.mp filled
    obtain ⟨others, each, equation⟩ := bind_eq_ok.mp filled
    cases equation
    have first : fits .messagePack (.link r) (old.headD .absent) := by
      cases old with
      | nil => rfl
      | cons d old => exact begun d mem_cons_self
    obtain ⟨length, fitting⟩ := fillValues_fit roomy.2 tree
      (fun d member => begun d (mem_of_mem_tail member)) each
    exact ⟨congrArg (· + 1) length,
      forall_mem_cons.mpr ⟨fillValue_fits roomy.1 tree first here, fitting⟩⟩

theorem fillFields_fit {fields : List Field} {old data : List Datum} {items : List Value}
    (roomy : areRoomy items) (tree : ∀ field ∈ fields, field.shape.isTree)
    (begun : fieldsFit .messagePack fields old) (filled : fillFields fields old items = .ok data) :
    fieldsFit .messagePack fields data := by
  cases items with
  | nil =>
    cases fields <;> cases old <;> cases filled <;> exact begun
  | cons item items =>
    cases fields with
    | nil =>
      cases filled
      exact begun
    | cons field fields =>
      cases old with
      | nil => cases begun
      | cons d old =>
        rw [areRoomy, Bool.and_eq_true] at roomy
        rw [fieldsFit, Bool.and_eq_true] at begun
        obtain ⟨d, here, filled⟩ := bind_eq_ok.mp filled
        obtain ⟨others, each, equation⟩ := bind_eq_ok.mp filled
        cases equation
        obtain ⟨treeHere, trees⟩ := forall_mem_cons.mp tree
        exact Bool.and_eq_true_iff.mpr ⟨fillValue_fits roomy.1 treeHere begun.1 here,
          fillFields_fit roomy.2 trees begun.2 each⟩

theorem fillPairs_fit {fields : List Field} {old data : List Datum} {pairs : List (Value × Value)}
    (roomy : arePairsRoomy pairs) (tree : ∀ field ∈ fields, field.shape.isTree)
    (begun : fieldsFit .messagePack fields old) (filled : fillPairs fields old pairs = .ok data) :
    fieldsFit .messagePack fields data := by
  cases pairs with
  | nil =>
    cases filled
    exact begun
  | cons pair pairs =>
    obtain ⟨key, value⟩ := pair
    rw [arePairsRoomy, Bool.and_eq_true, Bool.and_eq_true] at roomy
    obtain filled | ⟨position, field, d, found, here, others⟩ := fillPairs_pair filled
    · exact fillPairs_fit roomy.2 tree begun filled
    · obtain ⟨before, after⟩ := fieldsFit_at begun found
      have fitting := fillValue_fits roomy.1.2 (tree field (mem_of_getElem? found)) before here
      exact fillPairs_fit roomy.2 tree (after d fitting) others
end

theorem readMessagePack_fits {t : Text} (tree : (record r).isTree)
    (read : readMessagePack r t = .ok d) : fits .messagePack (.record r) d ∧ isSettled d := by
  rw [readMessagePack] at read
  cases filled : fillValue (.record r) (record r).zero (MessagePack.read t) with
  | error e =>
    rw [filled] at read
    cases read
  | ok datum =>
    rw [filled] at read
    cases read
    exact ⟨fits_settle (fillValue_fits (MessagePack.read_roomy t) tree (zero_fits rfl _) filled),
      isSettled_settle datum⟩

end MiddleEnd.Interchange
