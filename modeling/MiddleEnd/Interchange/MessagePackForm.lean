import MiddleEnd.Interchange.JsonForm
import MiddleEnd.MessagePack.Reader

/-!
Data in MessagePack. Reading fills a datum in the order of the bytes and stops at the first thing
that does not fit.
-/

namespace MiddleEnd.Interchange

open MessagePack (Value)

mutual
/-- Whether an optional field is left out: a record only if nothing of it would be written. -/
def isEmptyField (shape : Shape) : Datum → Bool
  | .record data =>
    match shape with
    | .record r => areEmptyFields r.fields data
    | _ => false
  | .list items _ => items.isEmpty
  | datum => shape.isZero datum
def areEmptyFields : List Field → List Datum → Bool
  | _, [] => true
  | [], _ :: _ => true
  | field :: fields, datum :: data =>
    field.optional && isEmptyField field.shape datum && areEmptyFields fields data
end

def isLeftOut (field : Field) (datum : Datum) : Bool :=
  field.optional && isEmptyField field.shape datum

mutual
def toValue (shape : Shape) : Datum → Except UnknownCode Value
  | .number n =>
    match shape with
    | .word v => do
      let word ← v.word (UInt8.ofInt n)
      .ok (.bin word)
    | .signed bytes => .ok (.sint bytes n)
    | .unsigned bytes => .ok (.uint bytes n.toNat)
    | _ => .ok .nil
  | .flag b => .ok (.bool b)
  | .text t =>
    match shape with
    | .bytes => .ok (.bin t)
    | _ => .ok (.str t)
  | .absent => .ok .nil
  | .record data =>
    match shape with
    | .record r | .link r => do
      let pairs ← toPairs r.fields data
      .ok (.map pairs)
    | _ => .ok .nil
  | .list items _ =>
    match shape with
    | .links r => do
      let items ← toValues (.link r) items
      .ok (.array items 0)
    | _ => .ok .nil
def toPairs : List Field → List Datum → Except UnknownCode (List (Value × Value))
  | _, [] => .ok []
  | [], _ :: _ => .ok []
  | field :: fields, datum :: data => do
    if isLeftOut field datum then toPairs fields data
    else
      let value ← toValue field.shape datum
      let pairs ← toPairs fields data
      .ok ((.str field.name, value) :: pairs)
def toValues (shape : Shape) : List Datum → Except UnknownCode (List Value)
  | [] => .ok []
  | datum :: data => do
    let item ← toValue shape datum
    let items ← toValues shape data
    .ok (item :: items)
end

/-- A number cut to the width of its field, in two's complement. -/
def truncated? (shape : Shape) (n : Int) : Option Int :=
  match shape with
  | .unsigned bytes => some (n % Nat.pow 256 bytes)
  | .signed bytes => some (Int.bmod n (Nat.pow 256 bytes))
  | _ => none

/-- Text and bytes are read alike; for a word they spell it. -/
def fillText (shape : Shape) (t : Text) : Except ReadError Datum :=
  match shape with
  | .text | .bytes => .ok (.text t)
  | .word v =>
    match v.code t with
    | .ok code => .ok (.number code.toNat)
    | .error e => .error (.unknownWord e)
  | _ => .error .malformed

def keyText? : Value → Option Text
  | .str t | .bin t => some t
  | .nil => some []
  | _ => none

mutual
def fillValue (shape : Shape) (old : Datum) : Value → Except ReadError Datum
  | .nil => .ok shape.zero
  | .bool b =>
    match shape with
    | .flag => .ok (.flag b)
    | _ => .error .malformed
  | .uint _ n =>
    match truncated? shape n with
    | some n => .ok (.number n)
    | none => .error .malformed
  | .sint _ n =>
    match truncated? shape n with
    | some n => .ok (.number n)
    | none => .error .malformed
  | .str t => fillText shape t
  | .bin t => fillText shape t
  | .array items missing =>
    match shape with
    | .links r => do
      let elements := Datum.elements old
      let filled ← fillValues (.link r) elements items
      .ok (.list filled (elements.drop items.length))
    | .record r | .link r =>
      if items.isEmpty then .ok (Shape.record r).zero
      else if items.length + missing = r.fields.length then do
        let data ← fillFields r.fields (Datum.fieldsOr (Shape.record r).zero old) items
        .ok (.record data)
      else .error .malformed
    | _ => .error .malformed
  | .map pairs =>
    match shape with
    | .record r | .link r => do
      let data ← fillPairs r.fields (Datum.fieldsOr (Shape.record r).zero old) pairs
      .ok (.record data)
    | _ => .error .malformed
  | .float _ | .ext _ | .broken => .error .malformed
def fillValues (shape : Shape) : (old : List Datum) → List Value → Except ReadError (List Datum)
  | _, [] => .ok []
  | old, item :: items => do
    let datum ← fillValue shape (old.headD .absent) item
    let data ← fillValues shape old.tail items
    .ok (datum :: data)
def fillFields : List Field → (data : List Datum) → List Value → Except ReadError (List Datum)
  | field :: fields, old :: data, item :: items => do
    let datum ← fillValue field.shape old item
    let data ← fillFields fields data items
    .ok (datum :: data)
  | _, data, _ => .ok data
def fillPairs (fields : List Field) : (data : List Datum) → List (Value × Value) →
    Except ReadError (List Datum)
  | data, [] => .ok data
  | data, (key, value) :: pairs => do
    match keyText? key with
    | none => .error .malformed
    | some key =>
      match fields.findIdx? fun f => Text.ofString f.name == key with
      | none => if value.isWhole then fillPairs fields data pairs else .error .malformed
      | some position =>
        let shape := (fields[position]?.map Field.shape).getD .flag
        let datum ← fillValue shape (data.getD position .absent) value
        fillPairs fields (data.set position datum) pairs
end

def readMessagePack (r : RecordType) (t : Text) : Except ReadError Datum :=
  (fillValue (.record r) (Shape.record r).zero (MessagePack.read t)).map Datum.settle

def writeMessagePack (r : RecordType) (d : Datum) : Except UnknownCode Text := do
  let value ← toValue (.record r) d
  .ok value.write

end MiddleEnd.Interchange
