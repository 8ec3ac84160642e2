import MiddleEnd.MessagePack.Value

/-!
Reading MessagePack stops at the first thing that is broken; what came before it is kept.
-/

namespace MiddleEnd.MessagePack

def ofBigEndian (t : Text) : Nat :=
  t.foldl (fun n b => 256 * n + b.toNat) 0

def takeBytes? (count : Nat) (t : Text) : Option (Text × Text) :=
  let front := t.take count
  if front.length = count then some (front, t.drop count) else none

def number? (width : Nat) (t : Text) : Option (Nat × Text) :=
  (takeBytes? width t).map fun (bytes, rest) => (ofBigEndian bytes, rest)

def signed (width n : Nat) : Int :=
  Int.bmod n (Nat.pow 256 width)

/-- A value with what follows it; nothing follows a broken one. -/
abbrev Read (α : Type) := α × Option Text

def brokenRead : Read Value := (.broken, none)

def ofBytes (count : Nat) (make : Text → Value) (t : Text) : Read Value :=
  match takeBytes? count t with
  | some (bytes, rest) => (make bytes, some rest)
  | none => brokenRead

def ofCounted (width : Nat) (make : Text → Value) (t : Text) : Read Value :=
  match number? width t with
  | some (count, rest) => ofBytes count make rest
  | none => brokenRead

/-- An extension: a type byte and its data, told apart by nothing here. -/
def ofExt (width extra : Nat) (t : Text) : Read Value :=
  match number? width t with
  | some (count, rest) => ofBytes (count + extra) .ext rest
  | none => brokenRead

def scalar? (code : UInt8) (t : Text) : Option (Read Value) :=
  if code < 0x80 then some (.uint 0 code.toNat, some t)
  else if code ≥ 0xE0 then some (.sint 0 (signed 1 code.toNat), some t)
  else if 0xA0 ≤ code && code < 0xC0 then some (ofBytes (code.toNat - 0xA0) .str t)
  else match code with
    | 0xC0 => some (.nil, some t)
    | 0xC2 => some (.bool false, some t)
    | 0xC3 => some (.bool true, some t)
    | 0xC4 => some (ofCounted 1 .bin t)
    | 0xC5 => some (ofCounted 2 .bin t)
    | 0xC6 => some (ofCounted 4 .bin t)
    | 0xC7 => some (ofExt 1 1 t)
    | 0xC8 => some (ofExt 2 1 t)
    | 0xC9 => some (ofExt 4 1 t)
    | 0xCA => some (ofBytes 4 .float t)
    | 0xCB => some (ofBytes 8 .float t)
    | 0xCC => some (ofBytes 1 (fun bytes => .uint 1 (ofBigEndian bytes)) t)
    | 0xCD => some (ofBytes 2 (fun bytes => .uint 2 (ofBigEndian bytes)) t)
    | 0xCE => some (ofBytes 4 (fun bytes => .uint 4 (ofBigEndian bytes)) t)
    | 0xCF => some (ofBytes 8 (fun bytes => .uint 8 (ofBigEndian bytes)) t)
    | 0xD0 => some (ofBytes 1 (fun bytes => .sint 1 (signed 1 (ofBigEndian bytes))) t)
    | 0xD1 => some (ofBytes 2 (fun bytes => .sint 2 (signed 2 (ofBigEndian bytes))) t)
    | 0xD2 => some (ofBytes 4 (fun bytes => .sint 4 (signed 4 (ofBigEndian bytes))) t)
    | 0xD3 => some (ofBytes 8 (fun bytes => .sint 8 (signed 8 (ofBigEndian bytes))) t)
    | 0xD4 => some (ofBytes 2 .ext t)
    | 0xD5 => some (ofBytes 3 .ext t)
    | 0xD6 => some (ofBytes 5 .ext t)
    | 0xD7 => some (ofBytes 9 .ext t)
    | 0xD8 => some (ofBytes 17 .ext t)
    | 0xD9 => some (ofCounted 1 .str t)
    | 0xDA => some (ofCounted 2 .str t)
    | 0xDB => some (ofCounted 4 .str t)
    | _ => none

def parts? (code : UInt8) (t : Text) : Option (Bool × Nat × Text) :=
  if 0x80 ≤ code && code < 0x90 then some (true, code.toNat - 0x80, t)
  else if 0x90 ≤ code && code < 0xA0 then some (false, code.toNat - 0x90, t)
  else match code with
    | 0xDC => (number? 2 t).map fun (n, rest) => (false, n, rest)
    | 0xDD => (number? 4 t).map fun (n, rest) => (false, n, rest)
    | 0xDE => (number? 2 t).map fun (n, rest) => (true, n, rest)
    | 0xDF => (number? 4 t).map fun (n, rest) => (true, n, rest)
    | _ => none

mutual
def readValue : (fuel : Nat) → Text → Read Value
  | 0, _ => brokenRead
  | _ + 1, [] => brokenRead
  | fuel + 1, code :: t =>
    match scalar? code t with
    | some read => read
    | none =>
      match parts? code t with
      | none => brokenRead
      | some (true, count, t) =>
        let (pairs, rest?) := readPairs fuel count t
        (.map pairs, rest?)
      | some (false, count, t) =>
        let (items, rest?) := readItems fuel count t
        (.array items (count - items.length), rest?)
def readItems : (fuel count : Nat) → Text → Read (List Value)
  | _, 0, t => ([], some t)
  | 0, _ + 1, _ => ([.broken], none)
  | fuel + 1, count + 1, t =>
    match readValue fuel t with
    | (item, none) => ([item], none)
    | (item, some t) =>
      let (items, rest?) := readItems fuel count t
      (item :: items, rest?)
def readPairs : (fuel count : Nat) → Text → Read (List (Value × Value))
  | _, 0, t => ([], some t)
  | 0, _ + 1, _ => ([(.broken, .broken)], none)
  | fuel + 1, count + 1, t =>
    match readValue fuel t with
    | (key, none) => ([(key, .broken)], none)
    | (key, some t) =>
      match readValue fuel t with
      | (value, none) => ([(key, value)], none)
      | (value, some t) =>
        let (pairs, rest?) := readPairs fuel count t
        ((key, value) :: pairs, rest?)
end

/-- The first value. Every second step of the reader takes a byte, so the length bounds the
fuel. -/
def read (t : Text) : Value :=
  (readValue (2 * t.length + 2) t).1

end MiddleEnd.MessagePack
