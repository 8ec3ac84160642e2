import MiddleEnd.Failure
import MiddleEnd.Files.Glob
import MiddleEnd.Files.Path

/-!
A file system as a value: directories and files by their path from the root, and a working directory
that relative paths start from.
-/

namespace MiddleEnd

inductive FileNode where
  | dir
  | file (content : Text)
  deriving DecidableEq, Repr, Inhabited

/-- The root itself is always a directory. -/
structure FileTree where
  nodes : List (List Text × FileNode)
  workDir : Text
  deriving DecidableEq, Repr, Inhabited

namespace FileTree

inductive Reason where
  | missing
  | notDirectory
  | isDirectory
  | occupied
  | tooLong
  | invalid
  deriving DecidableEq, Repr, Inhabited

def Reason.message : Reason → Text
  | .missing => "no such file or directory"
  | .notDirectory => "not a directory"
  | .isDirectory => "is a directory"
  | .occupied => "file exists"
  | .tooLong => "file name too long"
  | .invalid => "invalid argument"

def empty (workDir : Text) : FileTree where
  nodes :=
    let parts := Path.parts workDir
    (List.range parts.length).map fun i => (parts.take (i + 1), .dir)
  workDir

def node? (t : FileTree) (path : List Text) : Option FileNode :=
  if path.isEmpty then some .dir else t.nodes.lookup path

def set (t : FileTree) (path : List Text) (node : FileNode) : FileTree :=
  { t with nodes := (path, node) :: t.nodes.filter fun (p, _) => p != path }

def maxPart : Nat := 255

def maxPath : Nat := 4095

/-- Walks along the parts of a path; only the last of them may be missing. -/
def follow (t : FileTree) : (at_ : List Text) → (parts : List Text) → Except Reason (List Text)
  | at_, [] => .ok at_
  | at_, part :: parts =>
    match t.node? at_ with
    | none => .error .missing
    | some (.file _) => .error .notDirectory
    | some .dir =>
      if part.isEmpty || part == Text.ofString "." then t.follow at_ parts
      else if part == Path.dots then t.follow at_.dropLast parts
      else if part.length > maxPart then .error .tooLong
      else t.follow (at_ ++ [part]) parts

/-- Where a path leads. No path holds a zero byte. -/
def locate (t : FileTree) (path : Text) : Except Reason (List Text) :=
  if path.contains 0 then .error .invalid
  else if path.isEmpty then .error .missing
  else if path.length > maxPath then .error .tooLong
  else
    t.follow (if Path.isAbsolute path then [] else Path.parts t.workDir) (path.split Path.slash)

def find (t : FileTree) (path : Text) : Except Reason FileNode := do
  let at_ ← t.locate path
  match t.node? at_ with
  | some node => .ok node
  | none => .error .missing

def refuse (action path : Text) (reason : Reason) : PathError :=
  ⟨action, path, reason.message⟩

def stat (t : FileTree) (path : Text) : Except PathError FileNode :=
  (t.find path).mapError (refuse "stat" path)

def «open» (t : FileTree) (path : Text) : Except PathError FileNode :=
  (t.find path).mapError (refuse "open" path)

def readRefusal (path : Text) : PathError :=
  refuse "read" path .isDirectory

def read (t : FileTree) (path : Text) : Except PathError Text := do
  match ← t.open path with
  | .file content => .ok content
  | .dir => .error (readRefusal path)

def isDir (t : FileTree) (path : Text) : Bool :=
  match t.find path with
  | .ok .dir => true
  | _ => false

def trimmed (path : Text) : Text :=
  (path.reverse.dropWhile (· == Path.slash)).reverse

/-- Creates a file or replaces its content. A slash at the end asks for a directory. -/
def write (t : FileTree) (path content : Text) : Except PathError FileTree :=
  match t.locate (trimmed path) with
  | .error reason => .error (refuse "open" path reason)
  | .ok at_ =>
    if trimmed path != path || t.node? at_ == some .dir then
      .error (refuse "open" path .isDirectory)
    else .ok (t.set at_ (.file content))

def makeDir (t : FileTree) (path : Text) : Except PathError FileTree :=
  match t.locate (trimmed path) with
  | .error reason => .error (refuse "mkdir" path reason)
  | .ok at_ =>
    match t.node? at_ with
    | some _ => .error (refuse "mkdir" path .occupied)
    | none => .ok (t.set at_ .dir)

def parentText (path : Text) : Text :=
  (Path.split (trimmed path)).1

def makeDirsWithin : (fuel : Nat) → FileTree → Text → Except PathError FileTree
  | 0, t, _ => .ok t
  | fuel + 1, t, path =>
    match t.find path with
    | .ok .dir => .ok t
    | .ok (.file _) => .error (refuse "mkdir" path .notDirectory)
    | .error _ => do
      let parent := parentText path
      let t ← if parent.isEmpty then .ok t else makeDirsWithin fuel t parent
      match t.makeDir path with
      | .ok t => .ok t
      | .error e => if t.isDir path then .ok t else .error e

def makeDirs (t : FileTree) (path : Text) : Except PathError FileTree :=
  makeDirsWithin (path.length + 1) t path

def removeAll (t : FileTree) (path : Text) : FileTree :=
  match t.locate path with
  | .error _ => t
  | .ok at_ => { t with nodes := t.nodes.filter fun (p, _) => !at_.isPrefixOf p }

def names (t : FileTree) (path : Text) : List Text :=
  match t.locate path with
  | .error _ => []
  | .ok at_ =>
    Text.sort (t.nodes.filterMap fun (p, _) =>
      if p.dropLast == at_ && !p.isEmpty then p.getLast? else none)

/-! Patterns. -/

def globDir (t : FileTree) (dir : Text) (pattern : Glob.Pattern) : List Text :=
  if t.isDir dir then
    ((t.names dir).filter fun name => Glob.matches pattern name).map (Path.join dir)
  else []

def globWithin (t : FileTree) : (fuel : Nat) → Text → Option (List Text)
  | 0, _ => none
  | fuel + 1, pattern =>
    match Glob.parse? pattern with
    | none => none
    | some _ =>
      if !Glob.hasMeta pattern then
        some (if (t.find pattern).isOk then [pattern] else [])
      else
        let (dir, file) := Path.split pattern
        let dir : Text :=
          if dir.isEmpty then "." else if dir == [Path.slash] then dir else dir.dropLast
        match Glob.parse? file with
        | none => none
        | some filePattern =>
          if !Glob.hasMeta dir then some (t.globDir dir filePattern)
          else (t.globWithin fuel dir).map fun dirs => dirs.flatMap fun d => t.globDir d filePattern

def glob (t : FileTree) (pattern : Text) : Option (List Text) :=
  t.globWithin (pattern.length + 1) pattern

/-! Content. -/

def pathLe : List Text → List Text → Bool
  | [], _ => true
  | _ :: _, [] => false
  | a :: as, b :: bs => if a = b then pathLe as bs else a.lt b

/-- All files below a directory with their content, directories in order of their names. -/
def filesBelow (t : FileTree) (dir : Text) : List (Text × Text) :=
  let top := Path.parts dir
  let found := t.nodes.filterMap fun (p, node) =>
    match node with
    | .file content =>
      if top.isPrefixOf p then some (p.drop top.length, content) else none
    | .dir => none
  (found.mergeSort fun a b => pathLe a.1 b.1).map fun (p, content) =>
    (Text.join [Path.slash] p, content)

end FileTree

end MiddleEnd
