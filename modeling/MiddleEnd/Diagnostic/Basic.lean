import MiddleEnd.Syntax.Tree
import MiddleEnd.Text.Paint

/-!
Diagnostics: problems as they are shown to the user, with a severity, a code, and the file and node
they concern.
-/

namespace MiddleEnd.Diagnostic

inductive Severity where
  | info
  | warning
  | error
  | other (code : UInt8)
  deriving DecidableEq, Repr, Inhabited

namespace Severity

def ofCode (code : UInt8) : Severity :=
  match code with
  | 0 => .info
  | 1 => .warning
  | 2 => .error
  | _ => .other code

def rank : Severity → UInt8
  | .info => 0
  | .warning => 1
  | .error => 2
  | .other code => code

def name : Severity → Text
  | .info => "INFO"
  | .warning => "WARNING"
  | .error => "ERROR"
  | .other _ => "UNKNOWN"

def label (s : Severity) (colored : Bool) : Text :=
  match s with
  | .info => Paint.cyan.apply colored s.name
  | .warning => Paint.boldYellow.apply colored s.name
  | .error => Paint.boldRed.apply colored s.name
  | .other _ => s.name

end Severity

/-- Numbers of problems. The thousands and hundreds say what part of the work they belong to. -/
abbrev Code := UInt16

namespace Code

def unknown : Code := 0
def readFailed : Code := 1001
def decodeFailed : Code := 1002
def writeFailed : Code := 1003
def cacheFailed : Code := 1004
def badManifest : Code := 1101
def versionClash : Code := 1102
def duplicateDecl : Code := 2001
def unresolvedName : Code := 2002
def assignToVal : Code := 2003
def invalidTarget : Code := 2004
def arithmetic : Code := 3001
def missingStorage : Code := 3101
def unimplemented : Code := 3102
def invalidIr : Code := 3201

def titles : List (Code × Text) :=
  [(unknown, "unknown error"),
    (readFailed, "cannot read input"),
    (decodeFailed, "malformed AST file"),
    (writeFailed, "cannot write output"),
    (cacheFailed, "unusable cache entry"),
    (badManifest, "invalid lowc.toml"),
    (versionClash, "tool version does not satisfy project requirement"),
    (duplicateDecl, "duplicate declaration"),
    (unresolvedName, "unresolved identifier"),
    (assignToVal, "assignment to val"),
    (invalidTarget, "invalid assignment target"),
    (arithmetic, "constant arithmetic error"),
    (missingStorage, "identifier has no storage"),
    (unimplemented, "unimplemented feature"),
    (invalidIr, "invalid IR")]

def title (c : Code) : Text :=
  (titles.lookup c).getD "unknown error"

/-- The short form: the part of the work and the number. -/
def id (c : Code) : Text :=
  let n := c.toNat
  let area? : Option Text :=
    if n < 1000 || 3300 ≤ n then none
    else if n < 1100 then some "IO"
    else if n < 2000 then some "PRJ"
    else if n < 3000 then some "SEM"
    else if n < 3100 then some "FLD"
    else if n < 3200 then some "LOW"
    else some "IR"
  match area? with
  | some area => area ++ .ofNat n
  | none => "E0000"

def print (c : Code) : Text :=
  .concat ["[", c.id, "]: ", c.title]

end Code

end MiddleEnd.Diagnostic

namespace MiddleEnd

/-- A node of zero is none. -/
structure Diagnostic where
  severity : Diagnostic.Severity
  code : Diagnostic.Code
  message : Text
  file : Text := []
  node : NodeId := 0
  notes : List Text := []
  deriving DecidableEq, Repr, Inhabited

namespace Diagnostic

/-- File and node in front of a diagnostic; nothing where there is neither. -/
def location (d : Diagnostic) : Text :=
  let place := if d.node = 0 then d.file else d.file ++ "#" ++ .ofNat d.node.toNat
  if place.isEmpty then [] else place ++ ": "

def print (d : Diagnostic) : Text :=
  .concat [d.location, d.severity.name, " ", Code.id d.code, ": ", d.message]

def render (colored : Bool) (d : Diagnostic) : Text :=
  .concat
    [d.location, d.severity.label colored, " ", Paint.faint.apply colored (Code.id d.code), " ",
      d.message, "\n", d.notes.flatMap fun note => Text.concat ["    note: ", note, "\n"]]

def renderAll (colored : Bool) (ds : List Diagnostic) : Text :=
  ds.flatMap (render colored)

end Diagnostic

end MiddleEnd
