import MiddleEnd.Text.Quoted
import MiddleEnd.Toml.Reader

/-!
What the items of a document define, and what they may not define again.
-/

namespace MiddleEnd.Toml

/-- A value with the tables that several items may have added to. -/
inductive Value where
  | string (t : Text)
  | integer (n : Int)
  | float
  | boolean (b : Bool)
  | moment
  | array (items : List Value)
  | table (entries : List (Text × Value))
  | tables (elements : List (List (Text × Value)))
  deriving Inhabited

abbrev Entries := List (Text × Value)

inductive Error where
  | malformed
  | redefined (key : Key)
  | mismatch (key : Key) (expected : Text)
  | invalid (key : Key) (reason : Text)
  deriving DecidableEq, Repr, Inhabited

def Error.message : Error → Text
  | .malformed => "not well formed"
  | .redefined key => .concat ["key ", key.print.quoted, " has already been defined"]
  | .mismatch key expected => .concat [key.print, ": expected ", expected]
  | .invalid key reason => .concat [key.print, ": ", reason]

namespace Entries

def get? (entries : Entries) (name : Text) : Option Value :=
  entries.lookup name

def set (entries : Entries) (name : Text) (value : Value) : Entries :=
  if (entries.lookup name).isSome then
    entries.map fun (n, v) => if n == name then (n, value) else (n, v)
  else entries ++ [(name, value)]

/-- Changes the table at a path. In a list of tables the last one is meant. -/
def change? (f : Entries → Option Entries) : Key → Entries → Option Entries
  | [], entries => f entries
  | name :: path, entries =>
    match entries.get? name with
    | some (.table inner) => (change? f path inner).map fun inner => entries.set name (.table inner)
    | some (.tables elements) =>
      match elements.getLast? with
      | some last =>
        (change? f path last).map fun last =>
          entries.set name (.tables (elements.dropLast ++ [last]))
      | none => none
    | _ => none

def value? : Key → Entries → Option Value
  | [], _ => none
  | [name], entries => entries.get? name
  | name :: path, entries =>
    match entries.get? name with
    | some (.table inner) => value? path inner
    | some (.tables elements) => (elements.getLast?).bind (value? path)
    | _ => none

end Entries

/-- Implied tables were only mentioned on the way to others and may still be defined; what was last
written as an array may be written again. -/
structure Document where
  root : Entries := []
  implied : List Key := []
  arrays : List Key := []
  order : List Key := []
  deriving Inhabited

namespace Document

def imply (d : Document) (key : Key) : Document :=
  { d with implied := key :: d.implied }

/-- Notes whether a name below a context was written as an array. An empty name passes this on to
the context. -/
def markArray (d : Document) (context : Key) (name : Text) (isArray : Bool) : Document :=
  let key := if name.isEmpty && !context.isEmpty then context else context ++ [name]
  let others := d.arrays.filter (· != key)
  { d with arrays := if isArray then key :: others else others }

def mention (d : Document) (key : Key) : Document :=
  { d with order := d.order ++ [key] }

/-- Gives a key its value. A table that was implied keeps what it has. -/
def define (d : Document) (context : Key) (name : Text) (value : Value) : Except Error Document :=
  let key := context ++ [name]
  let store (d : Document) : Except Error Document :=
    match Entries.change? (fun entries => some (entries.set name value)) context d.root with
    | some root => .ok { d with root }
    | none => .error (.redefined key)
  let settled := { d with implied := d.implied.filter (· != key) }
  match Entries.value? key d.root with
  | none => store d
  | some _ =>
    if d.arrays.contains key then store settled
    else if d.implied.contains key then .ok settled
    else .error (.redefined key)

def implyParents (d : Document) (key : Key) : Except Error Document :=
  (List.range (key.length - 1)).foldlM
    (fun (d : Document) i =>
      let parent := key.take (i + 1)
      match Entries.value? parent d.root with
      | some (.table _) | some (.tables _) => .ok d
      | some _ => .error (.redefined parent)
      | none => (d.imply parent).define (key.take i) (parent.getLast?.getD []) (.table []))
    d

def openTable (d : Document) (key : Key) : Except Error Document := do
  let d ← d.implyParents key
  d.define key.dropLast (key.getLast?.getD []) (.table [])

def openElement (d : Document) (key : Key) : Except Error Document := do
  let d ← d.implyParents key
  let name := key.getLast?.getD []
  let add (entries : Entries) : Option Entries :=
    match entries.get? name with
    | none => some (entries.set name (.tables [[]]))
    | some (.tables elements) => some (entries.set name (.tables (elements ++ [[]])))
    | some _ => none
  match Entries.change? add key.dropLast d.root with
  | some root => .ok { d with root }
  | none => .error (.redefined key)

def openContext (d : Document) (context : Key) : Key → Except Error (Document × Key)
  | [] => .ok (d, context)
  | [_] => .ok (d, context)
  | name :: names => do
    let context := context ++ [name]
    let d ← (d.imply context).openTable context
    d.openContext context names

def Value.isArray : Value → Bool
  | .array _ => true
  | _ => false

mutual
/-- The value of a term at a key. Tables on one line are put together like others. -/
def evaluate (d : Document) (context : Key) (name : Text) (inArray : Bool) :
    Term → Except Error (Document × Value)
  | .string t => .ok (d, .string t)
  | .integer n => .ok (d, .integer n)
  | .float => .ok (d, .float)
  | .boolean b => .ok (d, .boolean b)
  | .moment => .ok (d, .moment)
  | .array items => do
    let (d, values) ← (d.markArray context name true).evaluateAll context name items
    .ok (d, .array values)
  | .inlineTable pairs => do
    let key := context ++ [name]
    let d := d.imply key
    let d ← if inArray then d.openElement key else d.openTable key
    let (d, entries) ← d.addPairs key [] pairs
    .ok (d, .table entries)
def evaluateAll (d : Document) (context : Key) (name : Text) :
    List Term → Except Error (Document × List Value)
  | [] => .ok (d, [])
  | item :: items => do
    let (d, value) ← d.evaluate context name true item
    let (d, values) ← d.evaluateAll context name items
    .ok (d, value :: values)
def addPairs (d : Document) (context : Key) (entries : Entries) :
    List (Key × Term) → Except Error (Document × Entries)
  | [] => .ok (d, entries)
  | pair :: pairs => do
    let (d, name, value) ← d.addPair context pair
    d.addPairs context (entries.set name value) pairs
def addPair (d : Document) (context : Key) : Key × Term → Except Error (Document × Text × Value)
  | (key, term) => do
    let name := key.getLast?.getD []
    let (d, context) ← d.openContext context key
    let (d, value) ← (d.mention (context ++ [name])).evaluate context name false term
    let d ← d.define context name value
    .ok (d.markArray context name (Value.isArray value), name, value)
end

def addItems (d : Document) (context : Key) : List Item → Except Error Document
  | [] => .ok d
  | .table key :: items => do
    let d ← d.openTable key
    ((d.markArray key [] false).mention key).addItems key items
  | .element key :: items => do
    let d ← d.openElement key
    ((d.markArray key [] false).mention key).addItems key items
  | .pair key value :: items => do
    let (d, _) ← d.addPair context (key, value)
    d.addItems context items

end Document

def parse (t : Text) : Except Error Document :=
  match read t with
  | none => .error .malformed
  | some items => Document.addItems {} [] items

end MiddleEnd.Toml
