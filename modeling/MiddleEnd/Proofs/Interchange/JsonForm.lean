import MiddleEnd.Interchange.File
import MiddleEnd.Proofs.Interchange.Fitting
import MiddleEnd.Proofs.Json.Depth

/-!
Data in JSON. A datum that fits has a plain form, and reading the form gives the datum back.
-/

namespace MiddleEnd.Interchange

open List Option
open Json (ArePlain AreMembersPlain)

variable {data : List Datum} {members : List (Text × Json)}
variable {shape : Shape} {r : RecordType} {fields : List Field} {d : Datum}

theorem fittingNumber?_ofInt (allowed : shape.allows n) (noWord : ∀ v, shape ≠ .word v) :
    fittingNumber? shape (.ofInt n) = some n := by
  cases shape with
  | unsigned width =>
    simp only [Shape.allows, Bool.and_eq_true, decide_eq_true_eq] at allowed
    cases n with
    | ofNat n =>
      have small : n < Nat.pow 256 width := Int.ofNat_lt.mp allowed.2
      simp only [fittingNumber?, Text.ofInt, Text.toNat?_ofNat, bind_eq_bind,
        bind_some, if_pos small]
      rfl
    | negSucc n => exact absurd allowed.1 (by omega)
  | signed width =>
    simp only [Shape.allows, Bool.and_eq_true, decide_eq_true_eq] at allowed
    cases n with
    | ofNat n =>
      have small : 2 * n < Nat.pow 256 width := by
        have := allowed.2
        rw [Int.ofNat_eq_natCast] at this
        omega
      obtain ⟨b, t, form, digit⟩ := Json.ofNat_cons n
      have noSign : b ≠ 45 := by
        rintro rfl
        cases digit
      have read := Text.toNat?_ofNat n
      rw [form] at read
      rw [Text.ofInt, form, fittingNumber?.eq_3 _ _ fun digits same => noSign (List.cons.inj same).1]
      simp only [read, bind_eq_bind, bind_some, if_pos small]
      rfl
    | negSucc n =>
      have small : 2 * (n + 1) ≤ Nat.pow 256 width := by
        have := allowed.1
        rw [Int.negSucc_eq] at this
        omega
      simp only [fittingNumber?, Text.ofInt, Text.toNat?_ofNat, bind_eq_bind,
        bind_some, if_pos small]
      rfl
  | word v => exact absurd rfl (noWord v)
  | _ => cases allowed

theorem RecordType.utf8_names (r : RecordType) :
    ∀ field ∈ r.fields, (Text.ofString field.name).isUtf8 := by
  cases r <;> decide +kernel

theorem toJson_record (ofRecord : shape = .record r ∨ shape = .link r) (data : List Datum) :
    toJson shape (.record data) = (do
      let members ← toMembers r.fields data
      .ok (.object members)) := by
  rcases ofRecord with rfl | rfl <;> rw [toJson]

theorem fillJson_object (ofRecord : shape = .record r ∨ shape = .link r) (old : Datum)
    (members : List (Text × Json)) : fillJson shape old (.object members) = (do
      let (fields, fits) ← fillMembers r.fields (Datum.fieldsOr (Shape.record r).zero old) members
      .ok (.record fields, fits)) := by
  rcases ofRecord with rfl | rfl <;> rw [fillJson]

theorem fillMembers_cons {done : List Field} {field : Field}
    (distinct : ((done ++ field :: fields).map fun f => Text.ofString f.name).Nodup)
    (length : before.length = done.length)
    (filled : fillJson field.shape field.shape.zero value = .ok (d, true)) :
    fillMembers (done ++ field :: fields) (before ++ field.shape.zero :: data)
        ((Text.ofString field.name, value) :: members) =
      fillMembers (done ++ field :: fields) (before ++ d :: data) members := by
  have position : fieldPosition? (done ++ field :: fields) field.name = some done.length := by
    rw [fieldPosition?, findIdx?_name distinct]
  rw [fillMembers]
  simp only [position, shape_at, datum_at length, filled, set_at length, ok_bind, Bool.true_and]
  cases fillMembers (done ++ field :: fields) (before ++ d :: data) members <;> rfl

mutual
theorem json_of_fits {shape : Shape} {d : Datum} (fitting : fits .json shape d) :
    ∃ j, toJson shape d = .ok j ∧ j.IsPlain ∧
      fillJson shape shape.zero j = .ok (d.settle, true) := by
  cases d with
  | number n =>
    cases shape with
    | word v =>
      obtain ⟨known, code⟩ := Shape.allows_word fitting
      obtain ⟨spelled, read⟩ := Vocabulary.word_of_contains known
      refine ⟨.string (v.name (UInt8.ofInt n)), ?_, (Vocabulary.name_fits known).2, ?_⟩
      · rw [toJson, spelled]
        rfl
      · rw [fillJson, read]
        exact congrArg (fun n => Except.ok (Datum.number n, true)) code.symm
    | unsigned | signed =>
      refine ⟨.number (.ofInt n), rfl, ⟨n, rfl⟩, ?_⟩
      rw [fits] at fitting
      rw [fillJson, fittingNumber?_ofInt fitting (by simp)]
      rfl
    | _ => cases fitting
  | flag b =>
    cases of_decide_eq_true fitting
    exact ⟨.bool b, rfl, trivial, rfl⟩
  | text t =>
    rw [fits, Bool.and_eq_true] at fitting
    cases of_decide_eq_true fitting.1
    exact ⟨.string t, rfl, fitting.2, rfl⟩
  | absent =>
    cases shape with
    | bytes | link | links => exact ⟨.null, rfl, trivial, rfl⟩
    | _ => cases fitting
  | record data =>
    obtain ⟨r, ofRecord, fitting⟩ := record_of_fits fitting
    obtain ⟨members, formed, plain, filled⟩ :=
      @members_of_fits [] r.fields [] data r.distinct_names r.utf8_names rfl fitting
    rw [nil_append, nil_append, nil_append] at filled
    refine ⟨.object members, ?_, plain, ?_⟩
    · rw [toJson_record ofRecord, formed]
      rfl
    · rw [fillJson_object ofRecord, fieldsOr_zero ofRecord, filled]
      rfl
  | list items spare =>
    cases shape with
    | links r =>
      simp only [fits, Bool.and_eq_true] at fitting
      obtain ⟨js, formed, plain, filled⟩ := items_of_fits fitting.1.2
      refine ⟨.array js, ?_, plain, ?_⟩
      · rw [toJson, formed]
        rfl
      · have begun : Datum.elements (Shape.links r).zero = [] := rfl
        rw [fillJson, begun, filled, ok_bind, drop_nil, ite_self]
        rfl
    | _ => cases fitting

theorem members_of_fits {done fields : List Field} {before data : List Datum}
    (distinct : ((done ++ fields).map fun f => Text.ofString f.name).Nodup)
    (named : ∀ field ∈ fields, (Text.ofString field.name).isUtf8)
    (length : before.length = done.length) (fitting : fieldsFit .json fields data) :
    ∃ members, toMembers fields data = .ok members ∧ AreMembersPlain members ∧
      fillMembers (done ++ fields) (before ++ fields.map fun field => field.shape.zero) members =
        .ok (before ++ Datum.settleAll data, true) := by
  cases data with
  | nil =>
    cases fields with
    | nil => exact ⟨[], rfl, trivial, rfl⟩
    | cons => cases fitting
  | cons d data =>
    cases fields with
    | nil => cases fitting
    | cons field fields =>
      obtain ⟨here, others⟩ := forall_mem_cons.mp named
      rw [fieldsFit, Bool.and_eq_true] at fitting
      have again (d : Datum) (distinct) := @members_of_fits (done ++ [field]) fields
        (before ++ [d]) data distinct others (by simp [length]) fitting.2
      simp only [append_assoc, singleton_append] at again
      rw [toMembers]
      by_cases leftOut : field.optional && field.shape.isZero d
      · have zero := eq_zero_of_isZero fitting.1 (Bool.and_eq_true_iff.mp leftOut).2
        obtain ⟨members, formed, plain, filled⟩ := again field.shape.zero distinct
        refine ⟨members, ?_, plain, ?_⟩
        · rw [if_pos leftOut, formed]
        · rw [map_cons, filled, Datum.settleAll, zero, settle_eq_self (isSettled_zero field.shape)]
      · obtain ⟨j, valued, plainHere, filledHere⟩ := json_of_fits fitting.1
        obtain ⟨members, formed, plain, filled⟩ := again d.settle distinct
        refine ⟨(Text.ofString field.name, j) :: members, ?_, ⟨here, plainHere, plain⟩, ?_⟩
        · rw [if_neg leftOut, valued, formed]
          rfl
        · rw [map_cons, fillMembers_cons distinct length filledHere, filled, Datum.settleAll]

theorem items_of_fits {r : RecordType} {items : List Datum} (fitting : allFit .json (.link r) items) :
    ∃ js, toItems (.link r) items = .ok js ∧ ArePlain js ∧
      fillItems (.link r) [] js = .ok (Datum.settleAll items, true) := by
  cases items with
  | nil => exact ⟨[], rfl, trivial, rfl⟩
  | cons d items =>
    rw [allFit, Bool.and_eq_true] at fitting
    obtain ⟨j, valued, plainHere, filledHere⟩ := json_of_fits fitting.1
    obtain ⟨js, formed, plain, filled⟩ := items_of_fits fitting.2
    refine ⟨j :: js, ?_, ⟨plainHere, plain⟩, ?_⟩
    · rw [toItems, valued, formed]
      rfl
    · have absent : List.headD [] Datum.absent = (Shape.link r).zero := rfl
      rw [fillItems, absent, filledHere, ok_bind, tail_nil, filled]
      rfl
end

theorem readJson_write (fitting : fits .json (.record r) d)
    (shallow : ∀ j, toJson (.record r) d = .ok j → j.nesting ≤ Json.maxDepth) :
    ∃ t, writeJson r d = .ok t ∧ readJson r t = .ok d.settle := by
  obtain ⟨j, formed, plain, filled⟩ := json_of_fits fitting
  refine ⟨j.pretty, ?_, ?_⟩
  · rw [writeJson, formed, ok_mapError, ok_bind,
      (Json.tooDeep?_eq_none_iff _ j).mpr (shallow j formed)]
  · rw [readJson, Json.read?_pretty plain (shallow j formed)]
    simp only [filled, settle_eq_self (isSettled_settle d)]

theorem allows_of_fittingNumber? (read : fittingNumber? shape literal = some n) :
    shape.allows n := by
  have positive (width : Nat) : 0 < Nat.pow 256 width := Nat.pow_pos (by decide)
  unfold fittingNumber? at read
  split at read
  case h_4 => cases read
  all_goals
    obtain ⟨k, -, bounded⟩ := bind_eq_some_iff.mp read
    obtain ⟨small, equation⟩ := ite_none_right_eq_some.mp bounded
    cases equation
    simp only [Shape.allows, Bool.and_eq_true, decide_eq_true_eq]
  case h_2 width digits =>
    have := positive width
    omega
  all_goals omega

theorem fieldPosition?_lt (found : fieldPosition? fields key = some position) :
    position < fields.length := by
  unfold fieldPosition? at found
  split at found
  · next here =>
    cases found
    exact (List.findIdx?_eq_some_iff_getElem.mp here).1
  · exact (List.findIdx?_eq_some_iff_getElem.mp found).1

theorem fillMembers_member
    (filled : fillMembers fields old ((key, value) :: members) = .ok (data, fit)) :
    (∃ fit, fillMembers fields old members = .ok (data, fit)) ∨
      ∃ position field d here others, fields[position]? = some field ∧
        fillJson field.shape (old.getD position .absent) value = .ok (d, here) ∧
        fillMembers fields (old.set position d) members = .ok (data, others) := by
  rw [fillMembers] at filled
  split at filled
  · obtain ⟨⟨others, fit⟩, rest, equation⟩ := bind_eq_ok.mp filled
    cases equation
    exact .inl ⟨fit, rest⟩
  · next position found =>
    have found := List.getElem?_eq_getElem (fieldPosition?_lt found)
    obtain ⟨⟨d, fit⟩, ofField, filled⟩ := bind_eq_ok.mp filled
    obtain ⟨⟨others, fits⟩, rest, equation⟩ := bind_eq_ok.mp filled
    cases equation
    rw [found] at ofField
    exact .inr ⟨position, _, d, fit, fits, found, ofField, rest⟩

theorem readJson_eq_ok (read : readJson r t = .ok d) :
    ∃ j datum, Json.read? t = some j ∧
      fillJson (.record r) (Shape.record r).zero j = .ok (datum, true) ∧ d = datum.settle := by
  unfold readJson at read
  split at read
  · cases read
  · next j parsed =>
    split at read
    · cases read
    · cases read
    · next datum filled =>
      cases read
      exact ⟨j, datum, parsed, filled, rfl⟩

end MiddleEnd.Interchange
