import MiddleEnd.CommandLine.Flag

/-!
The commands of the tool, and how one is found among the words of a command line. Flags may stand
before the name of a command too.
-/

namespace MiddleEnd.CommandLine

inductive Command where
  | root
  | build
  | watch
  | ast
  | cache
  | cacheDir
  | cacheClean
  | version
  | help
  | completion
  deriving DecidableEq, Repr, Inhabited

inductive CommandError where
  | flag (e : FlagError)
  | unknownCommand (name path : Text) (similar : List Text)
  | argumentCount (expected received : Nat)
  deriving DecidableEq, Repr, Inhabited

def CommandError.message : CommandError → Text
  | .flag e => e.message
  | .unknownCommand name path similar =>
    let hint : Text :=
      if similar.isEmpty then []
      else .concat
        ["\n\nDid you mean this?\n", similar.flatMap fun s => Text.concat ["\t", s, "\n"]]
    .concat ["unknown command ", name.quoted, " for ", path.quoted, hint]
  | .argumentCount expected received =>
    .concat ["accepts ", .ofNat expected, " arg(s), received ", .ofNat received]

namespace Command

def name : Command → Text
  | .root => "lowc"
  | .build => "build"
  | .watch => "watch"
  | .ast => "ast"
  | .cache => "cache"
  | .cacheDir => "dir"
  | .cacheClean => "clean"
  | .version => "version"
  | .help => "help"
  | .completion => "completion"

def path : Command → Text
  | .root => "lowc"
  | .cacheDir => "lowc cache dir"
  | .cacheClean => "lowc cache clean"
  | c => "lowc " ++ c.name

def children : Command → List Command
  | .root => [.build, .watch, .ast, .cache, .version, .help, .completion]
  | .cache => [.cacheDir, .cacheClean]
  | _ => []

def sharedFlags : FlagSet :=
  [⟨"dir", some 67, .text⟩, ⟨"color", none, .text⟩, ⟨"quiet", none, .switch⟩,
    ⟨"timings", none, .switch⟩, ⟨"max-diagnostics", none, .number⟩, ⟨"trace", none, .text⟩,
    ⟨"trace-level", none, .text⟩, ⟨"trace-format", none, .text⟩,
    ⟨"trace-ring-size", none, .number⟩]

def buildFlags : FlagSet :=
  [⟨"out", some 111, .text⟩, ⟨"emit", none, .text⟩, ⟨"fold", none, .switch⟩,
    ⟨"simplify", none, .switch⟩, ⟨"jobs", some 106, .number⟩, ⟨"cache", none, .switch⟩,
    ⟨"ui", none, .text⟩, ⟨"werror", none, .switch⟩]

def ownFlags : Command → FlagSet
  | .build => buildFlags
  | .watch => buildFlags ++ [⟨"debounce", none, .duration⟩]
  | .ast => [⟨"fold", none, .switch⟩, ⟨"convert", none, .text⟩]
  | .version =>
    [⟨"hash", none, .switch⟩, ⟨"message", none, .switch⟩, ⟨"date", none, .switch⟩,
      ⟨"full", none, .switch⟩, ⟨"format", none, .text⟩]
  | _ => []

def searchFlags (c : Command) : FlagSet :=
  c.ownFlags ++ sharedFlags

/-- A tool that has a version can be asked for it. -/
def flags (c : Command) (hasVersion : Bool) : FlagSet :=
  c.searchFlags ++ [⟨"help", some 104, .switch⟩]
    ++ if c = .root && hasVersion then [⟨"version", some 118, .switch⟩] else []

def child? (c : Command) (name : Text) : Option Command :=
  c.children.find? fun child => child.name == name

def takesNext (flags : FlagSet) (word : Text) : Bool :=
  let isSwitch (f : Option Flag) : Bool := (f.map fun f => f.kind == .switch).getD false
  match word with
  | 45 :: 45 :: name => !word.contains (Text.byte '=') && !isSwitch (flags.find? name)
  | [45, letter] => letter != Text.byte '=' && !isSwitch (flags.findLetter? letter)
  | _ => false

/-- A dash alone is no flag. -/
def isFlag (word : Text) : Bool := word.length ≥ 2 && word.head? = some (Text.byte '-')

def endOfFlags : Text := "--"

def plainWords (flags : FlagSet) : List Text → List Text
  | [] => []
  | word :: rest =>
    if word == endOfFlags then []
    else if takesNext flags word then
      match rest with
      | [] | [_] => []
      | _ :: rest => plainWords flags rest
    else if word.isEmpty || isFlag word then plainWords flags rest
    else word :: plainWords flags rest

def withoutWord (flags : FlagSet) (name : Text) : List Text → List Text
  | [] => []
  | word :: rest =>
    if word == endOfFlags then word :: rest
    else if takesNext flags word then
      match rest with
      | [] => [word]
      | value :: rest => word :: value :: withoutWord flags name rest
    else if word == name then rest
    else word :: withoutWord flags name rest

def distanceRow (a : UInt8) : (diagonal left : Nat) → Text → List Nat → List Nat
  | diagonal, left, b :: bs, above :: row =>
    let here := if a = b then diagonal else 1 + min diagonal (min left above)
    here :: distanceRow a above here bs row
  | _, _, _, _ => []

def distanceFrom : (row : List Nat) → Text → Text → Nat
  | row, [], _ => row.getLast?.getD 0
  | row, a :: as, bs =>
    match row with
    | [] => 0
    | first :: others => distanceFrom ((first + 1) :: distanceRow a first (first + 1) bs others) as bs

def distance (s t : Text) : Nat :=
  let t := t.lower
  distanceFrom (List.range (t.length + 1)) s.lower t

/-- Commands that may have been meant. Help is never proposed. -/
def similar (c : Command) (word : Text) : List Text :=
  ((c.children.filter (· != .help)).map Command.name).filter fun name =>
    distance word name ≤ 2 || Text.startsWith word.lower name.lower

/-- Follows the plain words from command to command; gives back the words that are left. -/
def descend : (fuel : Nat) → Command → List Text → Command × List Text
  | 0, c, words => (c, words)
  | fuel + 1, c, words =>
    match plainWords c.searchFlags words with
    | [] => (c, words)
    | word :: _ =>
      match c.child? word with
      | some child => descend fuel child (withoutWord c.searchFlags word words)
      | none => (c, words)

def find (words : List Text) : Except CommandError (Command × List Text) :=
  let (c, words) := descend 3 .root words
  match c, plainWords c.searchFlags words with
  | .root, word :: _ => .error (.unknownCommand word c.path (similar c word))
  | c, _ => .ok (c, words)

def checkArgs (c : Command) (args : List Text) : Except CommandError Unit :=
  match c, args with
  | .ast, args => if args.length = 1 then .ok () else .error (.argumentCount 1 args.length)
  | .cacheDir, arg :: _ | .cacheClean, arg :: _ | .version, arg :: _ =>
    .error (.unknownCommand arg c.path [])
  | _, _ => .ok ()

end Command

end MiddleEnd.CommandLine
