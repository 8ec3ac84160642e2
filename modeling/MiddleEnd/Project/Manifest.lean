import MiddleEnd.Files.Tree
import MiddleEnd.Project.Config
import MiddleEnd.Toml.Document

/-!
The file that describes a project. It lies in the project's root directory and is looked for from a
directory upwards.
-/

namespace MiddleEnd.Project

/-! Settings from a document. -/

def sections : List (Text × List Text) :=
  [("package", ["name", "requires"]),
    ("build", ["fold", "simplify", "jobs", "emit", "cache", "werror", "inputs", "out_dir"]),
    ("trace", ["level", "output"])]

def known? (names : List Text) (key : Text) : Option Text :=
  names.find? fun name => name.foldCase == key.foldCase

namespace Config

open Toml (Error Key Value)

def textOf (key : Key) : Value → Except Error Text
  | .string t => .ok t
  | _ => .error (.mismatch key "a string")

def flagOf (key : Key) : Value → Except Error Bool
  | .boolean b => .ok b
  | _ => .error (.mismatch key "a boolean")

def numberOf (key : Key) : Value → Except Error Int
  | .integer n => .ok n
  | _ => .error (.mismatch key "an integer")

def textsOf (key : Key) : Value → Except Error (List Text)
  | .array items => items.mapM (textOf key)
  | _ => .error (.mismatch key "an array")

def levelOf (key : Key) (value : Value) : Except Error Trace.Level := do
  (Trace.Level.parse (← textOf key value)).mapError (.invalid key)

def setField (c : Config) (key : Key) (name : Text) (value : Value) : Except Error Config := do
  let fields : List (Text × Except Error Config) :=
    [("name", (textOf key value).map fun name => { c with name }),
      ("requires", (textOf key value).map fun requires => { c with requires }),
      ("fold", (flagOf key value).map fun fold => { c with fold }),
      ("simplify", (flagOf key value).map fun simplify => { c with simplify }),
      ("jobs", (numberOf key value).map fun jobs => { c with jobs }),
      ("emit", (textOf key value).map fun emit => { c with emit }),
      ("cache", (flagOf key value).map fun cache => { c with cache }),
      ("werror", (flagOf key value).map fun werror => { c with werror }),
      ("inputs", (textsOf key value).map fun inputs => { c with inputs }),
      ("out_dir", (textOf key value).map fun outDir => { c with outDir }),
      ("level", (levelOf key value).map fun traceLevel => { c with traceLevel }),
      ("output", (textOf key value).map fun traceOutput => { c with traceOutput })]
  (fields.lookup name).getD (.ok c)

abbrev Taken := Config × List Key

def takeFields (names : List Text) (header : Text) (taken : Taken) :
    Toml.Entries → Except Error Taken
  | [] => .ok taken
  | (key, value) :: entries =>
    match known? names key with
    | none => takeFields names header taken entries
    | some name => do
      let (c, keys) := taken
      let c ← c.setField [header, key] name value
      takeFields names header (c, keys ++ [[header, key]]) entries

def takeSections (taken : Taken) : Toml.Entries → Except Error Taken
  | [] => .ok taken
  | (key, value) :: entries =>
    match known? (sections.map (·.1)) key with
    | none => takeSections taken entries
    | some name => do
      let (c, keys) := taken
      match value with
      | .table inner =>
        let taken ← takeFields ((sections.lookup name).getD []) key (c, keys ++ [[key]]) inner
        takeSections taken entries
      | _ => .error (.mismatch [key] "a table")

end Config

def hasName (d : Toml.Document) (c : Config) : Bool :=
  (Toml.Entries.value? ["package", "name"] d.root).isSome && !c.name.trim.isEmpty

def Config.ofText (path text : Text) : Except Failure Config := do
  let refuse (message : Text) (cause : Option Failure) : Failure := .manifest path message cause
  let unreadable (e : Toml.Error) : Failure := refuse "failed to parse TOML" (some (.plain e.message))
  let document ← (Toml.parse text).mapError unreadable
  let (c, taken) ← (Config.takeSections ({}, []) document.root).mapError unreadable
  match document.order.filter fun key => !taken.contains key with
  | [] =>
    if hasName document c then
      match c.validate with
      | none => .ok c
      | some problems => .error (refuse "invalid configuration" (some problems))
    else .error (refuse "missing [package].name" none)
  | unknown =>
    .error (refuse ("unknown keys: " ++ Text.join ", " (unknown.map Toml.Key.print)) none)

/-! Manifests in directories. -/

def manifestName : Text := "lowc.toml"

structure Manifest where
  path : Text
  root : Text
  config : Config
  deriving DecidableEq, Repr, Inhabited

def findFrom (files : FileTree) : (fuel : Nat) → Text → Except Failure (Option Text)
  | 0, _ => .ok none
  | fuel + 1, dir =>
    let candidate := Path.join dir manifestName
    match files.find candidate with
    | .ok _ => .ok (some candidate)
    | .error .missing =>
      let parent := Path.dir dir
      if parent == dir then .ok none else findFrom files fuel parent
    | .error reason =>
      .error (.context (.concat ["failed to stat ", candidate.quoted, ": "])
        (.path (FileTree.refuse "stat" candidate reason)))

def find (files : FileTree) (start : Text) : Except Failure (Option Text) :=
  let dir := Path.absolute files.workDir (if start.isEmpty then "." else start)
  findFrom files (dir.length + 1) dir

def Config.load (files : FileTree) (path : Text) : Except Failure Config :=
  match files.read path with
  | .ok text => Config.ofText path text
  | .error e => .error (.manifest path "failed to parse TOML" (some (.path e)))

def Manifest.load (files : FileTree) (start : Text) : Except Failure (Option Manifest) := do
  match ← find files start with
  | none => .ok none
  | some path =>
    let config ← Config.load files path
    .ok (some { path, root := Path.dir path, config })

namespace Manifest

def inputs (m : Manifest) (files : FileTree) : Except Failure (List Text) := do
  let found ← m.config.inputs.mapM fun pattern =>
    match files.glob (Path.join m.root pattern) with
    | some paths => .ok paths
    | none =>
      .error (Failure.plain (.concat
        [m.path, ": bad input pattern ", pattern.quoted, ": syntax error in pattern"]))
  .ok (Text.sort found.flatten.eraseDups)

def outDir (m : Manifest) : Text :=
  if Path.isAbsolute m.config.outDir then m.config.outDir else Path.join m.root m.config.outDir

end Manifest

end MiddleEnd.Project
