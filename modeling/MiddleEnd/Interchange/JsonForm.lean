import MiddleEnd.Interchange.Shape
import MiddleEnd.Json.Reader
import MiddleEnd.Text.Word

/-!
Data in JSON. Reading fills a datum that may hold something already. What does not fit is passed
over and makes the whole reading fail at its end; only an unknown word ends it at once.
-/

namespace MiddleEnd.Interchange

mutual
def toJson (shape : Shape) : Datum → Except UnknownCode Json
  | .number n =>
    match shape with
    | .word v => do
      let word ← v.word (UInt8.ofInt n)
      .ok (.string word)
    | _ => .ok (.number (.ofInt n))
  | .flag b => .ok (.bool b)
  | .text t => .ok (.string t)
  | .absent => .ok .null
  | .record fields =>
    match shape with
    | .record r | .link r => do
      let members ← toMembers r.fields fields
      .ok (.object members)
    | _ => .ok .null
  | .list items _ =>
    match shape with
    | .links r => do
      let items ← toItems (.link r) items
      .ok (.array items)
    | _ => .ok .null
def toMembers : List Field → List Datum → Except UnknownCode (List (Text × Json))
  | _, [] => .ok []
  | [], _ :: _ => .ok []
  | field :: fields, datum :: data => do
    if field.optional && field.shape.isZero datum then toMembers fields data
    else
      let value ← toJson field.shape datum
      let members ← toMembers fields data
      .ok ((field.name, value) :: members)
def toItems (shape : Shape) : List Datum → Except UnknownCode (List Json)
  | [] => .ok []
  | datum :: data => do
    let item ← toJson shape datum
    let items ← toItems shape data
    .ok (item :: items)
end

/-- Keys match their field also in another case. -/
def fieldPosition? (fields : List Field) (key : Text) : Option Nat :=
  match fields.findIdx? fun f => Text.ofString f.name == key with
  | some position => some position
  | none => fields.findIdx? fun f => Text.foldCase f.name == key.foldCase

def fittingNumber? (shape : Shape) (literal : Text) : Option Int :=
  match shape, literal with
  | .unsigned bytes, digits => do
    let n ← Text.toNat? digits
    if n < Nat.pow 256 bytes then some (n : Int) else none
  | .signed bytes, 45 :: digits => do
    let n ← Text.toNat? digits
    if 2 * n ≤ Nat.pow 256 bytes then some (-(n : Int)) else none
  | .signed bytes, digits => do
    let n ← Text.toNat? digits
    if 2 * n < Nat.pow 256 bytes then some (n : Int) else none
  | _, _ => none

/-- A datum, and whether all that was read into it did fit. -/
abbrev Filled (α : Type) := α × Bool

def Datum.fieldsOr (zero old : Datum) : List Datum :=
  match old, zero with
  | .record fields, _ => fields
  | _, .record fields => fields
  | _, _ => []

def Datum.elements : Datum → List Datum
  | .list items spare => items ++ spare
  | _ => []

mutual
def fillJson (shape : Shape) (old : Datum) : Json → Except UnknownWord (Filled Datum)
  | .null =>
    match shape with
    | .link _ | .links _ | .bytes => .ok (.absent, true)
    | _ => .ok (old, true)
  | .bool b =>
    match shape with
    | .flag => .ok (.flag b, true)
    | _ => .ok (old, false)
  | .number literal =>
    match fittingNumber? shape literal with
    | some n => .ok (.number n, true)
    | none => .ok (old, false)
  | .string t =>
    match shape with
    | .text => .ok (.text t, true)
    | .word v => do
      let code ← v.code t
      .ok (.number code.toNat, true)
    | _ => .ok (old, false)
  | .array items =>
    match shape with
    | .links r => do
      let (filled, fits) ← fillItems (.link r) (Datum.elements old) items
      let spare := if items.isEmpty then [] else (Datum.elements old).drop items.length
      .ok (.list filled spare, fits)
    | _ => .ok (old, false)
  | .object members =>
    match shape with
    | .record r | .link r => do
      let (fields, fits) ← fillMembers r.fields (Datum.fieldsOr (Shape.record r).zero old) members
      .ok (.record fields, fits)
    | _ => .ok (old, false)
def fillItems (shape : Shape) : (old : List Datum) → List Json →
    Except UnknownWord (Filled (List Datum))
  | _, [] => .ok ([], true)
  | old, item :: items => do
    let (datum, fits) ← fillJson shape (old.headD .absent) item
    let (data, others) ← fillItems shape old.tail items
    .ok (datum :: data, fits && others)
def fillMembers (fields : List Field) : (data : List Datum) → List (Text × Json) →
    Except UnknownWord (Filled (List Datum))
  | data, [] => .ok (data, true)
  | data, (key, value) :: members => do
    match fieldPosition? fields key with
    | none =>
      let (data, _) ← fillMembers fields data members
      .ok (data, false)
    | some position =>
      let shape := (fields[position]?.map Field.shape).getD .flag
      let (datum, fits) ← fillJson shape (data.getD position .absent) value
      let (data, others) ← fillMembers fields (data.set position datum) members
      .ok (data, fits && others)
end

inductive ReadError where
  | malformed
  | unknownWord (e : UnknownWord)
  deriving DecidableEq, Repr, Inhabited

def readJson (r : RecordType) (t : Text) : Except ReadError Datum :=
  match Json.read? t with
  | none => .error .malformed
  | some json =>
    match fillJson (.record r) (Shape.record r).zero json with
    | .error e => .error (.unknownWord e)
    | .ok (_, false) => .error .malformed
    | .ok (datum, true) => .ok datum.settle

end MiddleEnd.Interchange
