import MiddleEnd.Interchange.MessagePackForm
import MiddleEnd.Proofs.Control
import MiddleEnd.Proofs.MessagePack.RoundTrip

/-!
Data of one MessagePack form. The form of a record tells its fields apart by their names, so two
records of one form agree field by field.
-/

namespace MiddleEnd

open List

theorem ofInt_toNat (code : UInt8) : UInt8.ofInt code.toNat = code := by
  apply UInt8.toNat_inj.mp
  have := code.toNat_lt
  simp only [UInt8.ofInt, UInt8.toNat_ofNat']
  omega

namespace Interchange

open MessagePack (Value)

theorem RecordType.distinct_names (r : RecordType) :
    (r.fields.map fun field => Text.ofString field.name).Nodup := by
  cases r <;> decide +kernel

def SameForm (shape : Shape) (d d' : Datum) : Prop :=
  ∃ v, toValue shape d = .ok v ∧ toValue shape d' = .ok v

/-- Both are left out of their record, or both are in it and of one form. -/
def SameField (field : Field) (d d' : Datum) : Prop :=
  isLeftOut field d ∧ isLeftOut field d' ∨
    isLeftOut field d = false ∧ isLeftOut field d' = false ∧ SameForm field.shape d d'

def SameFields : List Field → List Datum → List Datum → Prop
  | field :: fields, d :: data, d' :: data' =>
    SameField field d d' ∧ SameFields fields data data'
  | _, _, _ => True

theorem toPairs_cons (field : Field) (fields : List Field) (d : Datum) (data : List Datum) :
    toPairs (field :: fields) (d :: data) =
      if isLeftOut field d then toPairs fields data
      else (do
        let value ← toValue field.shape d
        let pairs ← toPairs fields data
        .ok ((.str field.name, value) :: pairs)) := by
  rw [toPairs]

variable {data data' : List Datum} {r : RecordType} {d d' : Datum}

theorem toPairs_keys (equation : toPairs fields data = .ok pairs) (member : (.str key, v) ∈ pairs) :
    key ∈ fields.map fun field => Text.ofString field.name := by
  induction fields generalizing data pairs with
  | nil => cases data <;> cases equation <;> cases member
  | cons field fields ih =>
    cases data with
    | nil => cases equation; cases member
    | cons d data =>
      rw [toPairs_cons] at equation
      split at equation
      · exact mem_cons_of_mem _ (ih equation member)
      · obtain ⟨value, -, equation⟩ := bind_eq_ok.mp equation
        obtain ⟨rest, written, equation⟩ := bind_eq_ok.mp equation
        cases equation
        cases member with
        | head => exact mem_cons_self
        | tail _ member => exact mem_cons_of_mem _ (ih written member)

theorem toPairs_sameFields (distinct : (fields.map fun field => Text.ofString field.name).Nodup)
    (first : toPairs fields data = .ok pairs) (second : toPairs fields data' = .ok pairs) :
    SameFields fields data data' := by
  induction fields generalizing data data' pairs with
  | nil => trivial
  | cons field fields ih =>
    obtain ⟨fresh, distinct⟩ := nodup_cons.mp distinct
    cases data with
    | nil => trivial
    | cons d data =>
      cases data' with
      | nil => trivial
      | cons d' data' =>
        rw [toPairs_cons] at first second
        split at first
        · next leftOut =>
          split at second
          · next leftOut' => exact ⟨.inl ⟨leftOut, leftOut'⟩, ih distinct first second⟩
          · obtain ⟨value, -, second⟩ := bind_eq_ok.mp second
            obtain ⟨rest, -, second⟩ := bind_eq_ok.mp second
            cases second
            exact absurd (toPairs_keys first mem_cons_self) fresh
        · next written =>
          obtain ⟨value, formed, first⟩ := bind_eq_ok.mp first
          obtain ⟨rest, others, first⟩ := bind_eq_ok.mp first
          cases first
          split at second
          · exact absurd (toPairs_keys second mem_cons_self) fresh
          · next written' =>
            obtain ⟨value', formed', second⟩ := bind_eq_ok.mp second
            obtain ⟨rest', others', second⟩ := bind_eq_ok.mp second
            cases second
            exact ⟨.inr ⟨Bool.eq_false_iff.mpr written, Bool.eq_false_iff.mpr written',
              value, formed, formed'⟩, ih distinct others others'⟩

theorem toValue_record_eq_ok :
    toValue (.link r) (.record data) = .ok v ↔
      ∃ pairs, toPairs r.fields data = .ok pairs ∧ .map pairs = v := by
  rw [toValue, bind_eq_ok]
  simp only [Except.ok.injEq]

theorem SameForm.symm (same : SameForm shape d d') : SameForm shape d' d := by
  obtain ⟨v, first, second⟩ := same
  exact ⟨v, second, first⟩

theorem not_sameForm_absent : ¬ SameForm (.link r) .absent (.record data) := by
  rintro ⟨v, first, second⟩
  cases first
  obtain ⟨pairs, -, map⟩ := toValue_record_eq_ok.mp second
  cases map

theorem SameForm.fields (same : SameForm (.link r) (.record data) (.record data')) :
    SameFields r.fields data data' := by
  obtain ⟨v, first, second⟩ := same
  obtain ⟨pairs, written, rfl⟩ := toValue_record_eq_ok.mp first
  obtain ⟨pairs', written', maps⟩ := toValue_record_eq_ok.mp second
  cases maps
  exact toPairs_sameFields r.distinct_names written written'

theorem sameFields_of_empty (empty : areEmptyFields fields data)
    (empty' : areEmptyFields fields data') : SameFields fields data data' := by
  induction fields generalizing data data' with
  | nil => trivial
  | cons field fields ih =>
    cases data with
    | nil => trivial
    | cons d data =>
      cases data' with
      | nil => trivial
      | cons d' data' =>
        simp only [areEmptyFields, Bool.and_eq_true] at empty empty'
        exact ⟨.inl ⟨Bool.and_eq_true_iff.mpr empty.1, Bool.and_eq_true_iff.mpr empty'.1⟩,
          ih empty.2 empty'.2⟩

namespace SameField

variable {name : String} {optional : Bool}

theorem form (same : SameField ⟨name, shape, false⟩ d d') : SameForm shape d d' := by
  rcases same with ⟨leftOut, -⟩ | ⟨-, -, same⟩
  · cases leftOut
  · exact same

theorem emptyOrForm (same : SameField ⟨name, shape, optional⟩ d d') :
    isEmptyField shape d ∧ isEmptyField shape d' ∨ SameForm shape d d' := by
  rcases same with ⟨leftOut, leftOut'⟩ | ⟨-, -, same⟩
  · exact .inl ⟨(Bool.and_eq_true_iff.mp leftOut).2, (Bool.and_eq_true_iff.mp leftOut').2⟩
  · exact .inr same

theorem fields (same : SameField ⟨name, .record r, optional⟩ (.record data) (.record data')) :
    SameFields r.fields data data' := by
  rcases same.emptyOrForm with ⟨empty, empty'⟩ | form
  · exact sameFields_of_empty empty empty'
  · exact SameForm.fields form

theorem text (same : SameField ⟨name, .text, optional⟩ (.text t) (.text t')) : t = t' := by
  rcases same.emptyOrForm with ⟨empty, empty'⟩ | ⟨v, first, second⟩
  · rw [isEmpty_iff.mp empty, isEmpty_iff.mp empty']
  · cases first
    cases second
    rfl

theorem flag (same : SameField ⟨name, .flag, optional⟩ (.flag b) (.flag b')) : b = b' := by
  rcases same.emptyOrForm with ⟨empty, empty'⟩ | ⟨v, first, second⟩
  · rw [Bool.not_eq_true' b |>.mp empty, Bool.not_eq_true' b' |>.mp empty']
  · cases first
    cases second
    rfl

theorem signed (same : SameField ⟨name, .signed width, optional⟩ (.number n) (.number n')) :
    n = n' := by
  rcases same.emptyOrForm with ⟨empty, empty'⟩ | ⟨v, first, second⟩
  · rw [beq_iff_eq.mp empty, beq_iff_eq.mp empty']
  · cases first
    cases second
    rfl

theorem id {n' : UInt32}
    (same : SameField ⟨name, .unsigned 4, optional⟩ (.number n.toNat) (.number n'.toNat)) :
    n = n' := by
  apply UInt32.toNat_inj.mp
  rcases same.emptyOrForm with ⟨empty, empty'⟩ | ⟨v, first, second⟩
  · have := beq_iff_eq.mp empty
    have := beq_iff_eq.mp empty'
    omega
  · cases first
    exact (Value.uint.inj (Except.ok.inj second)).2.symm

theorem word (same : SameField ⟨name, .word v, false⟩ (.number code.toNat) (.number code'.toNat)) :
    v.hasWord code ∧ v.hasWord code' ∧ v.name code = v.name code' := by
  obtain ⟨value, first, second⟩ := same.form
  have spelled {code : UInt8} (formed : toValue (.word v) (.number code.toNat) = .ok value) :
      v.hasWord code ∧ value = .bin (v.name code) := by
    rw [toValue, ofInt_toNat] at formed
    obtain ⟨w, spelled, equation⟩ := bind_eq_ok.mp formed
    unfold Vocabulary.word at spelled
    split at spelled
    · next known =>
      cases spelled
      exact ⟨known, (Except.ok.inj equation).symm⟩
    · cases spelled
  refine ⟨(spelled first).1, (spelled second).1, ?_⟩
  exact Value.bin.inj ((spelled first).2.symm.trans (spelled second).2)

end SameField

/-- An absent part or a record, as a link holds it. -/
def Datum.IsLink (d : Datum) : Prop := d = .absent ∨ ∃ data, d = .record data

theorem SameField.link {optional : Bool} (same : SameField ⟨name, .link r, optional⟩ d d')
    (link : Datum.IsLink d) (link' : Datum.IsLink d') : SameForm (.link r) d d' := by
  have empty {d : Datum} (link : Datum.IsLink d) (empty : isEmptyField (.link r) d) :
      d = .absent := by
    rcases link with absent | ⟨data, rfl⟩
    · exact absent
    · cases empty
  rcases same.emptyOrForm with ⟨left, right⟩ | form
  · rw [empty link left, empty link' right]
    exact ⟨.nil, rfl, rfl⟩
  · exact form

section Links

variable {α β : Type} {data : α → Datum} (view : α → β) {shape : Shape}

theorem map_eq_of_toValues {xs ys : List α} (first : toValues shape (xs.map data) = .ok vs)
    (second : toValues shape (ys.map data) = .ok vs)
    (each : ∀ x ∈ xs, ∀ y ∈ ys, SameForm shape (data x) (data y) → view x = view y) :
    xs.map view = ys.map view := by
  induction xs generalizing ys vs with
  | nil =>
    cases first
    cases ys with
    | nil => rfl
    | cons y ys =>
      obtain ⟨v, -, second⟩ := bind_eq_ok.mp second
      obtain ⟨vs, -, second⟩ := bind_eq_ok.mp second
      cases second
  | cons x xs ih =>
    obtain ⟨v, formed, first⟩ := bind_eq_ok.mp first
    obtain ⟨vs, others, first⟩ := bind_eq_ok.mp first
    cases first
    cases ys with
    | nil => cases second
    | cons y ys =>
      obtain ⟨v', formed', second⟩ := bind_eq_ok.mp second
      obtain ⟨vs', others', second⟩ := bind_eq_ok.mp second
      cases second
      rw [map_cons, map_cons,
        each x mem_cons_self y mem_cons_self ⟨v, formed, formed'⟩,
        ih others others' fun x inside y inside' =>
          each x (mem_cons_of_mem _ inside) y (mem_cons_of_mem _ inside')]

theorem SameForm.links {xs ys : List α}
    (same : SameForm (.links r) (.list (xs.map data) []) (.list (ys.map data) []))
    (each : ∀ x ∈ xs, ∀ y ∈ ys, SameForm (.link r) (data x) (data y) → view x = view y) :
    xs.map view = ys.map view := by
  obtain ⟨v, first, second⟩ := same
  obtain ⟨vs, formed, equation⟩ := bind_eq_ok.mp first
  cases equation
  obtain ⟨vs', formed', equation⟩ := bind_eq_ok.mp second
  cases equation
  exact map_eq_of_toValues view formed formed' each

theorem not_sameForm_bare : ¬ SameForm (.links r) .absent (.list items []) := by
  rintro ⟨v, first, second⟩
  cases first
  obtain ⟨vs, -, equation⟩ := bind_eq_ok.mp second
  cases equation

end Links

theorem SameFields.map {data data' : Field → Datum}
    (same : SameFields fields (fields.map data) (fields.map data')) (member : field ∈ fields) :
    SameField field (data field) (data' field) := by
  induction fields with
  | nil => cases member
  | cons first fields ih =>
    cases member with
    | head => exact same.1
    | tail _ member => exact ih same.2 member

/-- Whether the record has a form in which every number and length finds room. -/
def hasForm (r : RecordType) (d : Datum) : Bool :=
  match toValue (.record r) d with
  | .ok v => v.isWritable
  | .error _ => false

theorem hasForm_iff : hasForm r d ↔ ∃ v, toValue (.record r) d = .ok v ∧ v.isWritable := by
  unfold hasForm
  cases toValue (.record r) d with
  | error e => simp
  | ok v => simp

theorem sameForm_of_write (fits : hasForm r d) (fits' : hasForm r d')
    (first : writeMessagePack r d = .ok t) (second : writeMessagePack r d' = .ok t) :
    SameForm (.record r) d d' := by
  obtain ⟨v, formed, writable⟩ := hasForm_iff.mp fits
  obtain ⟨v', formed', writable'⟩ := hasForm_iff.mp fits'
  rw [writeMessagePack, formed] at first
  rw [writeMessagePack, formed'] at second
  have values := MessagePack.write_injective writable writable'
    ((Except.ok.inj first).trans (Except.ok.inj second).symm)
  exact ⟨v, formed, values ▸ formed'⟩

end Interchange

end MiddleEnd
