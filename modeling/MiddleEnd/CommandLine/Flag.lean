import MiddleEnd.CommandLine.Value

/-!
Flags of commands. Flags and arguments may stand in any order, and two dashes end the flags.
-/

namespace MiddleEnd.CommandLine

inductive FlagKind where
  | text
  | switch
  | number
  | duration
  deriving DecidableEq, Repr, Inhabited

structure Flag where
  name : Text
  letter : Option UInt8 := none
  kind : FlagKind
  deriving DecidableEq, Repr, Inhabited

inductive FlagError where
  | badSyntax (word : Text)
  | unknown (name : Text)
  | unknownLetter (letter : UInt8) (word : Text)
  | needsValue (name : Text)
  | letterNeedsValue (letter : UInt8) (word : Text)
  | invalid (flag : Flag) (value reason : Text)
  deriving DecidableEq, Repr, Inhabited

def Flag.label (f : Flag) : Text :=
  match f.letter with
  | some letter => .concat ["-", [letter], ", --", f.name]
  | none => "--" ++ f.name

/-- A letter between apostrophes; of a byte beyond ASCII, the first byte of its character in
UTF-8. -/
def quotedLetter (letter : UInt8) : Text :=
  let shown := (Text.ofChar (Char.ofNat letter.toNat)).headD letter
  Text.quotedAlone (Char.ofNat shown.toNat)

def FlagError.message : FlagError → Text
  | .badSyntax word => "bad flag syntax: " ++ word
  | .unknown name => "unknown flag: --" ++ name
  | .unknownLetter letter word =>
    .concat ["unknown shorthand flag: ", quotedLetter letter, " in -", word]
  | .needsValue name => "flag needs an argument: --" ++ name
  | .letterNeedsValue letter word =>
    .concat ["flag needs an argument: ", quotedLetter letter, " in -", word]
  | .invalid flag value reason =>
    .concat
      ["invalid argument ", value.quoted, " for ", flag.label.quoted, " flag: ", reason]

def FlagKind.problem? (kind : FlagKind) (value : Text) : Option Text :=
  match kind with
  | .text => none
  | .switch =>
    match parseSwitch? value with
    | some _ => none
    | none => some (.concat ["strconv.ParseBool: parsing ", value.quoted, ": invalid syntax"])
  | .number =>
    match parseNumber value with
    | .ok _ => none
    | .error e => some (e.message value)
  | .duration =>
    match parseDuration value with
    | .ok _ => none
    | .error e => some (e.message value)

/-! Reading. -/

structure Given where
  values : List (Text × Text) := []
  args : List Text := []
  deriving DecidableEq, Repr, Inhabited

namespace Given

def isSet (g : Given) (name : Text) : Bool :=
  (g.values.lookup name).isSome

def text (g : Given) (name : Text) (default : Text) : Text :=
  (g.values.lookup name).getD default

def switch (g : Given) (name : Text) (default : Bool) : Bool :=
  ((g.values.lookup name).bind parseSwitch?).getD default

def number (g : Given) (name : Text) (default : Int) : Int :=
  match g.values.lookup name with
  | none => default
  | some value => ((parseNumber value).toOption).getD default

def add (g : Given) (flag : Flag) (value : Text) : Except FlagError Given :=
  match flag.kind.problem? value with
  | some reason => .error (.invalid flag value reason)
  | none => .ok { g with values := (flag.name, value) :: g.values }

end Given

abbrev FlagSet := List Flag

namespace FlagSet

def find? (flags : FlagSet) (name : Text) : Option Flag :=
  List.find? (fun f => f.name == name) flags

def findLetter? (flags : FlagSet) (letter : UInt8) : Option Flag :=
  List.find? (fun f => f.letter == some letter) flags

def readLong (flags : FlagSet) (given : Given) (word : Text) (rest : List Text) :
    Except FlagError (Given × List Text) :=
  let body := word.drop 2
  let (name, value?) : Text × Option Text :=
    match Text.cut? (Text.byte '=') body with
    | some (name, value) => (name, some value)
    | none => (body, none)
  if body.isEmpty || body.head? = some (Text.byte '-') || body.head? = some (Text.byte '=') then
    .error (.badSyntax word)
  else match flags.find? name with
    | none => .error (.unknown name)
    | some flag =>
      match value?, flag.kind, rest with
      | some value, _, rest => do return (← given.add flag value, rest)
      | none, .switch, rest => do return (← given.add flag "true", rest)
      | none, _, value :: rest => do return (← given.add flag value, rest)
      | none, _, [] => .error (.needsValue name)

/-- Letters that start like this are meant for a test runner. -/
def runnerMark : Text := "test."

/-- Flags by their letters. Switches may stand together; a value may follow its letter at once. -/
def readLetters (flags : FlagSet) :
    Given → (letters : Text) → List Text → Except FlagError (Given × List Text)
  | given, [], rest => .ok (given, rest)
  | given, letter :: behind, rest =>
    if Text.startsWith runnerMark (letter :: behind) then .ok (given, rest)
    else match flags.findLetter? letter with
      | none => .error (.unknownLetter letter (letter :: behind))
      | some flag =>
        match behind, flag.kind, rest with
        | 61 :: value :: more, _, rest => do return (← given.add flag (value :: more), rest)
        | behind, .switch, rest => do
          let given ← given.add flag "true"
          flags.readLetters given behind rest
        | _ :: _, _, rest => do return (← given.add flag behind, rest)
        | [], _, value :: rest => do return (← given.add flag value, rest)
        | [], _, [] => .error (.letterNeedsValue letter [letter])

def readFrom (flags : FlagSet) : (fuel : Nat) → Given → List Text → Except FlagError Given
  | 0, given, _ => .ok given
  | _, given, [] => .ok given
  | fuel + 1, given, word :: rest =>
    match word with
    | 45 :: 45 :: [] => .ok { given with args := given.args ++ rest }
    | 45 :: 45 :: _ => do
      let (given, rest) ← flags.readLong given word rest
      flags.readFrom fuel given rest
    | 45 :: letter :: letters => do
      let (given, rest) ← flags.readLetters given (letter :: letters) rest
      flags.readFrom fuel given rest
    | _ => flags.readFrom fuel { given with args := given.args ++ [word] } rest

def read (flags : FlagSet) (words : List Text) : Except FlagError Given :=
  flags.readFrom (words.length + 1) {} words

end FlagSet

end MiddleEnd.CommandLine
