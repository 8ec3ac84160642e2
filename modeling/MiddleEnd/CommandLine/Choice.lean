import MiddleEnd.Failure
import MiddleEnd.Text.Word

/-!
Features that are on, off, or left to the circumstances.
-/

namespace MiddleEnd.CommandLine

inductive Choice where
  | auto
  | on
  | off
  deriving DecidableEq, Repr, Inhabited

def Choice.name : Choice → Text
  | .auto => "auto"
  | .on => "on"
  | .off => "off"

def Choice.parse? (t : Text) : Option Choice :=
  let word := t.keyword
  if word.isEmpty then some .auto
  else [Choice.auto, .on, .off].find? fun c => c.name == word

def Choice.parse (flag value : Text) : Except Failure Choice :=
  match Choice.parse? value with
  | some c => .ok c
  | none =>
    .error (.plain (.concat
      ["invalid --", flag, " value ", value.quoted, " (expected auto|on|off)"]))

/-- Nothing is on by itself where the output is no terminal. -/
def Choice.isOn : Choice → Bool
  | .on => true
  | .auto | .off => false

end MiddleEnd.CommandLine
