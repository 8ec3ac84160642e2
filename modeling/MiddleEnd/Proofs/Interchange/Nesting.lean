import MiddleEnd.Proofs.Interchange.JsonForm

/-!
How deep the JSON form of a datum nests. Whatever is read fits, and reading adds no depth to what
the text has.
-/

namespace MiddleEnd.Interchange

open List
open Json (HaveValidTexts MembersHaveValidTexts itemsNesting membersNesting)

variable {d : Datum}

mutual
/-- The depth of lists and records, elements beyond the end of a list included. -/
def depth (shape : Shape) : Datum → Nat
  | .record data =>
    match shape with
    | .record r => if areZero r.fields data then 0 else fieldsDepth r.fields data + 1
    | .link r => fieldsDepth r.fields data + 1
    | _ => 0
  | .list items spare =>
    match shape with
    | .links r => max (itemsDepth (.link r) items) (itemsDepth (.link r) spare) + 1
    | _ => 0
  | _ => 0
def fieldsDepth : List Field → List Datum → Nat
  | _, [] => 0
  | [], _ :: _ => 0
  | field :: fields, datum :: data => max (depth field.shape datum) (fieldsDepth fields data)
def itemsDepth (shape : Shape) : List Datum → Nat
  | [] => 0
  | datum :: data => max (depth shape datum) (itemsDepth shape data)
end

theorem depth_link (r : RecordType) (data : List Datum) :
    depth (.link r) (.record data) = fieldsDepth r.fields data + 1 := by
  rw [depth]

variable {shape : Shape} {fields : List Field} {r : RecordType}

theorem depth_of_isZero (zero : shape.isZero d) : depth shape d = 0 := by
  cases d with
  | record data =>
    cases shape with
    | record r => exact if_pos zero
    | _ => cases zero
  | list items spare => cases zero
  | _ => rfl

theorem fieldsDepth_of_areZero (zero : areZero fields data) : fieldsDepth fields data = 0 := by
  induction fields generalizing data with
  | nil => cases data <;> rfl
  | cons field fields ih =>
    cases data with
    | nil => rfl
    | cons d data =>
      rw [areZero, Bool.and_eq_true] at zero
      rw [fieldsDepth, depth_of_isZero zero.1, ih zero.2]
      rfl

theorem depth_record_le (r : RecordType) (data : List Datum) :
    depth (.record r) (.record data) ≤ fieldsDepth r.fields data + 1 := by
  rw [depth]
  split
  · exact Nat.zero_le _
  · exact Nat.le_refl _

theorem depth_le (ofRecord : shape = .record r ∨ shape = .link r) (data : List Datum) :
    depth shape (.record data) ≤ fieldsDepth r.fields data + 1 := by
  rcases ofRecord with rfl | rfl
  · exact depth_record_le r data
  · exact Nat.le_of_eq (depth_link r data)

theorem le_depth (ofRecord : shape = .record r ∨ shape = .link r) (data : List Datum) :
    fieldsDepth r.fields data + 1 ≤ max (depth shape (.record data)) 1 := by
  rcases ofRecord with rfl | rfl
  · rw [depth]
    split
    · next zero =>
      rw [fieldsDepth_of_areZero zero]
      exact Nat.le_max_right ..
    · exact Nat.le_max_left ..
  · rw [depth_link]
    exact Nat.le_max_left ..

theorem itemsDepth_append (shape : Shape) (items others : List Datum) :
    itemsDepth shape (items ++ others) = max (itemsDepth shape items) (itemsDepth shape others) := by
  induction items with
  | nil => exact (Nat.zero_max _).symm
  | cons d items ih => rw [cons_append, itemsDepth, itemsDepth, ih, Nat.max_assoc]

theorem itemsDepth_drop_le (shape : Shape) (items : List Datum) (n : Nat) :
    itemsDepth shape (items.drop n) ≤ itemsDepth shape items := by
  conv => rhs; rw [← take_append_drop n items, itemsDepth_append]
  exact Nat.le_max_right ..

theorem itemsDepth_elements {r : RecordType} {old : Datum} :
    itemsDepth (.link r) (Datum.elements old) + 1 ≤ max (depth (.links r) old) 1 := by
  cases old with
  | list items spare =>
    rw [Datum.elements, itemsDepth_append, depth]
    exact Nat.le_max_left ..
  | _ => exact Nat.le_max_right ..

theorem fieldsDepth_fieldsOr (ofRecord : shape = .record r ∨ shape = .link r) (old : Datum) :
    fieldsDepth r.fields (Datum.fieldsOr (Shape.record r).zero old) + 1 ≤
      max (depth shape old) 1 := by
  have zeros : fieldsDepth r.fields (r.fields.map fun field => field.shape.zero) = 0 := by
    apply fieldsDepth_of_areZero
    cases r <;> rfl
  rw [Shape.zero_record]
  cases old with
  | record data => exact le_depth ofRecord data
  | _ => exact Nat.le_trans (Nat.le_of_eq (congrArg (· + 1) zeros)) (Nat.le_max_right ..)

theorem depth_at_le (found : fields[position]? = some field) (data : List Datum) (d : Datum) :
    depth field.shape (data.getD position .absent) ≤ fieldsDepth fields data ∧
      fieldsDepth fields (data.set position d) ≤
        max (fieldsDepth fields data) (depth field.shape d) := by
  induction fields generalizing data position with
  | nil => cases found
  | cons first fields ih =>
    cases data with
    | nil => exact ⟨Nat.zero_le _, Nat.zero_le _⟩
    | cons here data =>
      cases position with
      | zero =>
        cases found
        rw [set_cons_zero, getD_cons_zero, fieldsDepth, fieldsDepth]
        omega
      | succ position =>
        have := ih found data
        rw [set_cons_succ, getD_cons_succ, fieldsDepth, fieldsDepth]
        omega

mutual
theorem fillJson_fits {shape : Shape} {old d : Datum} {fit : Bool} (valid : j.HasValidTexts)
    (begun : fits .json shape old) (filled : fillJson shape old j = .ok (d, fit)) :
    fits .json shape d ∧ depth shape d ≤ max (depth shape old) j.nesting := by
  have kept : fits .json shape old ∧ depth shape old ≤ max (depth shape old) j.nesting :=
    ⟨begun, Nat.le_max_left ..⟩
  cases j with
  | null =>
    cases shape with
    | link | links | bytes =>
      cases filled
      exact ⟨rfl, Nat.zero_le _⟩
    | _ =>
      cases filled
      exact kept
  | bool b =>
    cases shape with
    | flag =>
      cases filled
      exact ⟨rfl, Nat.zero_le _⟩
    | _ =>
      cases filled
      exact kept
  | number literal =>
    rw [fillJson] at filled
    split at filled
    · next read =>
      cases filled
      exact ⟨allows_of_fittingNumber? read, Nat.zero_le _⟩
    · cases filled
      exact kept
  | string t =>
    cases shape with
    | text =>
      cases filled
      exact ⟨valid, Nat.zero_le _⟩
    | word v =>
      obtain ⟨code, found, equation⟩ := bind_eq_ok.mp filled
      cases equation
      rw [fits]
      exact ⟨Vocabulary.allows_code (Vocabulary.contains_of_code found), Nat.zero_le _⟩
    | _ =>
      cases filled
      exact kept
  | array items =>
    cases shape with
    | links r =>
      obtain ⟨⟨data, fit⟩, each, equation⟩ := bind_eq_ok.mp filled
      cases equation
      have elements := elements_fit begun
      have before := @itemsDepth_elements r old
      obtain ⟨fitting, deep⟩ := fillItems_fit valid elements each
      have beyond : ∀ spare, spare = (if items.isEmpty then [] else (Datum.elements old).drop
          items.length) → allFit .json (.link r) spare ∧
            itemsDepth (.link r) spare ≤ itemsDepth (.link r) (Datum.elements old) := by
        rintro spare rfl
        split
        · exact ⟨rfl, Nat.zero_le _⟩
        · exact ⟨allFit_iff.mpr fun d member => elements d (mem_of_mem_drop member),
            itemsDepth_drop_le ..⟩
      obtain ⟨spared, least⟩ := beyond _ rfl
      simp only [fits, Bool.and_eq_true, allFit_iff.mpr fitting, spared, depth, Json.nesting]
      exact ⟨⟨⟨rfl, trivial⟩, trivial⟩, by omega⟩
    | _ =>
      cases filled
      exact kept
  | object members =>
    have asRecord (r : RecordType) (ofRecord : shape = .record r ∨ shape = .link r) :
        fits .json shape d ∧
          depth shape d ≤ max (depth shape old) (Json.object members).nesting := by
      rw [fillJson_object ofRecord] at filled
      obtain ⟨⟨data, fit⟩, each, equation⟩ := bind_eq_ok.mp filled
      cases equation
      have before := fieldsDepth_fieldsOr ofRecord old
      obtain ⟨fitting, deep⟩ := fillMembers_fit valid (fieldsOr_fits rfl ofRecord begun) each
      have whole := depth_le ofRecord data
      rw [fits_record ofRecord, Json.nesting]
      exact ⟨fitting, by omega⟩
    cases shape with
    | record r => exact asRecord r (.inl rfl)
    | link r => exact asRecord r (.inr rfl)
    | _ =>
      cases filled
      exact kept

theorem fillItems_fit {r : RecordType} {old data : List Datum} {items : List Json} {fit : Bool}
    (valid : HaveValidTexts items) (begun : ∀ d ∈ old, fits .json (.link r) d)
    (filled : fillItems (.link r) old items = .ok (data, fit)) :
    (∀ d ∈ data, fits .json (.link r) d) ∧
      itemsDepth (.link r) data ≤ max (itemsDepth (.link r) old) (itemsNesting items) := by
  cases items with
  | nil =>
    cases filled
    exact ⟨forall_mem_nil _, Nat.zero_le _⟩
  | cons item items =>
    obtain ⟨⟨d, here⟩, ofItem, filled⟩ := bind_eq_ok.mp filled
    obtain ⟨⟨others, fits⟩, each, equation⟩ := bind_eq_ok.mp filled
    cases equation
    have first : Interchange.fits .json (.link r) (old.headD .absent) ∧
        max (depth (.link r) (old.headD .absent)) (itemsDepth (.link r) old.tail) ≤
          itemsDepth (.link r) old := by
      cases old with
      | nil => exact ⟨rfl, Nat.zero_le _⟩
      | cons d old => exact ⟨begun d mem_cons_self, Nat.le_refl _⟩
    obtain ⟨fitting, deep⟩ := fillJson_fits valid.1 first.1 ofItem
    obtain ⟨allFitting, allDeep⟩ :=
      fillItems_fit valid.2 (fun d member => begun d (mem_of_mem_tail member)) each
    rw [itemsDepth, itemsNesting]
    exact ⟨forall_mem_cons.mpr ⟨fitting, allFitting⟩, by omega⟩

theorem fillMembers_fit {fields : List Field} {old data : List Datum} {members : List (Text × Json)}
    {fit : Bool} (valid : MembersHaveValidTexts members) (begun : fieldsFit .json fields old)
    (filled : fillMembers fields old members = .ok (data, fit)) :
    fieldsFit .json fields data ∧
      fieldsDepth fields data ≤ max (fieldsDepth fields old) (membersNesting members) := by
  cases members with
  | nil =>
    cases filled
    exact ⟨begun, Nat.le_max_left ..⟩
  | cons member members =>
    obtain ⟨key, value⟩ := member
    rw [membersNesting]
    obtain ⟨fit, rest⟩ | ⟨position, field, d, here, others, found, ofField, rest⟩ :=
      fillMembers_member filled
    · obtain ⟨fitting, deep⟩ := fillMembers_fit valid.2 begun rest
      exact ⟨fitting, by omega⟩
    · obtain ⟨before, after⟩ := fieldsFit_at begun found
      obtain ⟨fitting, deep⟩ := fillJson_fits valid.1 before ofField
      obtain ⟨allFitting, allDeep⟩ := fillMembers_fit valid.2 (after d fitting) rest
      have := depth_at_le found old d
      exact ⟨allFitting, by omega⟩
end

/-! Elements beyond the end of a list only add depth. -/

mutual
theorem isZero_settle (shape : Shape) (d : Datum) : shape.isZero d.settle = shape.isZero d := by
  cases d with
  | record data =>
    cases shape with
    | record r => exact areZero_settleAll r.fields data
    | _ => rfl
  | _ => rfl

theorem areZero_settleAll (fields : List Field) (data : List Datum) :
    areZero fields (Datum.settleAll data) = areZero fields data := by
  cases data with
  | nil => rfl
  | cons d data =>
    cases fields with
    | nil => rfl
    | cons field fields =>
      rw [Datum.settleAll, areZero, areZero, isZero_settle field.shape d,
        areZero_settleAll fields data]
end

mutual
theorem depth_settle_le (shape : Shape) (d : Datum) : depth shape d.settle ≤ depth shape d := by
  cases d with
  | record data =>
    cases shape with
    | record r =>
      have := fieldsDepth_settleAll_le r.fields data
      rw [Datum.settle, depth, depth, areZero_settleAll]
      split <;> omega
    | link r =>
      have := fieldsDepth_settleAll_le r.fields data
      rw [Datum.settle, depth, depth]
      omega
    | _ => exact Nat.zero_le _
  | list items spare =>
    cases shape with
    | links r =>
      have := itemsDepth_settleAll_le (.link r) items
      rw [Datum.settle, depth, depth, itemsDepth]
      omega
    | _ => exact Nat.zero_le _
  | _ => exact Nat.le_refl _

theorem fieldsDepth_settleAll_le (fields : List Field) (data : List Datum) :
    fieldsDepth fields (Datum.settleAll data) ≤ fieldsDepth fields data := by
  cases data with
  | nil => exact Nat.le_refl _
  | cons d data =>
    cases fields with
    | nil => exact Nat.le_refl _
    | cons field fields =>
      have := depth_settle_le field.shape d
      have := fieldsDepth_settleAll_le fields data
      rw [Datum.settleAll, fieldsDepth, fieldsDepth]
      omega

theorem itemsDepth_settleAll_le (shape : Shape) (items : List Datum) :
    itemsDepth shape (Datum.settleAll items) ≤ itemsDepth shape items := by
  cases items with
  | nil => exact Nat.le_refl _
  | cons d items =>
    have := depth_settle_le shape d
    have := itemsDepth_settleAll_le shape items
    rw [Datum.settleAll, itemsDepth, itemsDepth]
    omega
end

theorem readJson_fits {t : Text} (read : readJson r t = .ok d) :
    (fits .json (.record r) d ∧ isSettled d) ∧ depth (.link r) d ≤ Json.maxDepth := by
  obtain ⟨j, datum, parsed, filled, rfl⟩ := readJson_eq_ok read
  obtain ⟨valid, bound⟩ := Json.read?_valid parsed
  obtain ⟨fitting, grown⟩ := fillJson_fits valid (zero_fits rfl _) filled
  have start := depth_of_isZero (Shape.record r).isZero_zero
  have asLink : depth (.link r) datum ≤ max (depth (.record r) datum) 1 := by
    cases datum with
    | record data => exact le_depth (.inl rfl) data
    | _ => exact Nat.zero_le _
  have settled := depth_settle_le (.link r) datum
  have room : 1 ≤ Json.maxDepth := by decide
  exact ⟨⟨fits_settle fitting, isSettled_settle datum⟩, by omega⟩

/-! The form of a datum is as deep as the datum. -/

theorem RecordType.optional_records (r : RecordType) :
    ∀ field ∈ r.fields, ∀ r', field.shape = .record r' → field.optional := by
  cases r <;> simp [RecordType.fields]

mutual
theorem toJson_nesting {shape : Shape} {d : Datum}
    (said : ∀ r, shape = .record r → shape.isZero d = false) (formed : toJson shape d = .ok j) :
    j.nesting ≤ depth shape d := by
  cases d with
  | number n =>
    cases shape with
    | word v =>
      obtain ⟨word, spelled, equation⟩ := bind_eq_ok.mp formed
      cases equation
      exact Nat.zero_le _
    | _ =>
      cases formed
      exact Nat.zero_le _
  | flag | text | absent =>
    cases formed
    exact Nat.zero_le _
  | record data =>
    have asRecord (r : RecordType) (ofRecord : shape = .record r ∨ shape = .link r)
        (counted : depth shape (.record data) = fieldsDepth r.fields data + 1) :
        j.nesting ≤ depth shape (.record data) := by
      rw [toJson_record ofRecord] at formed
      obtain ⟨members, each, equation⟩ := bind_eq_ok.mp formed
      cases equation
      rw [counted, Json.nesting]
      exact Nat.succ_le_succ (toMembers_nesting r.optional_records each)
    cases shape with
    | record r =>
      refine asRecord r (.inl rfl) ?_
      rw [depth, if_neg]
      exact Bool.eq_false_iff.mp (said r rfl)
    | link r => exact asRecord r (.inr rfl) (depth_link r data)
    | _ =>
      cases formed
      exact Nat.zero_le _
  | list items spare =>
    cases shape with
    | links r =>
      obtain ⟨js, each, equation⟩ := bind_eq_ok.mp formed
      cases equation
      have := toItems_nesting each
      rw [Json.nesting, depth]
      omega
    | _ =>
      cases formed
      exact Nat.zero_le _

theorem toMembers_nesting {fields : List Field} {data : List Datum}
    (optional : ∀ field ∈ fields, ∀ r, field.shape = .record r → field.optional)
    (formed : toMembers fields data = .ok members) :
    membersNesting members ≤ fieldsDepth fields data := by
  cases data with
  | nil =>
    cases formed
    exact Nat.zero_le _
  | cons d data =>
    cases fields with
    | nil =>
      cases formed
      exact Nat.zero_le _
    | cons field fields =>
      obtain ⟨here, others⟩ := forall_mem_cons.mp optional
      rw [toMembers] at formed
      rw [fieldsDepth]
      split at formed
      · exact Nat.le_trans (toMembers_nesting others formed) (Nat.le_max_right ..)
      · next written =>
        obtain ⟨j, valued, formed⟩ := bind_eq_ok.mp formed
        obtain ⟨members, rest, equation⟩ := bind_eq_ok.mp formed
        cases equation
        have rest := toMembers_nesting others rest
        have first := toJson_nesting (fun r part => by
          rw [here r part, Bool.true_and] at written
          exact Bool.eq_false_iff.mpr written) valued
        rw [membersNesting]
        omega

theorem toItems_nesting {r : RecordType} {items : List Datum}
    (formed : toItems (.link r) items = .ok js) : itemsNesting js ≤ itemsDepth (.link r) items := by
  cases items with
  | nil =>
    cases formed
    exact Nat.zero_le _
  | cons d items =>
    obtain ⟨j, valued, formed⟩ := bind_eq_ok.mp formed
    obtain ⟨js, rest, equation⟩ := bind_eq_ok.mp formed
    cases equation
    have first := toJson_nesting (by simp) valued
    have rest := toItems_nesting rest
    rw [itemsNesting, itemsDepth]
    omega
end

end MiddleEnd.Interchange
