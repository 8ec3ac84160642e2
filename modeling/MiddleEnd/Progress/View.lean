import MiddleEnd.Pipeline.Event
import MiddleEnd.Text.Terminal

/-!
The progress of a build on a screen: a title, one line for every file, and a bar.
-/

namespace MiddleEnd.Progress

open Pipeline (Stage Status Step)

/-- A file that has come to its end changes no more. -/
structure Item where
  path : Text
  status : Text := "queued"
  final : Bool := false
  deriving DecidableEq, Repr, Inhabited

structure View where
  title : Text
  items : List Item
  label : Text := []
  width : Int := 80
  barWidth : Int := 76
  frame : Nat := 0
  done : Bool := false
  failed : Nat := 0
  deriving DecidableEq, Repr, Inhabited

def stepLabel : Step → Text
  | .stage .decode => "decoding"
  | .stage .fold => "folding"
  | .stage .check => "checking"
  | .stage .lower => "lowering"
  | .stage .validate | .stage .simplify => "verifying"
  | .stage .render | .write => "writing"
  | .build => "building"

def label? (step : Option Step) (status : Option Status) (cached : Bool) : Option Text :=
  match status with
  | some .queued => some "queued"
  | some .done => some (if cached then "cached" else "done")
  | some .error => some "error"
  | some .working => step.map stepLabel
  | none => none

namespace View

def start (title : Text) (files : List Text) : View where
  title
  items := files.map fun path => { path := path }

def position? (v : View) (path : Text) : Option Nat :=
  ((v.items.zipIdx.filter fun (item, _) => item.path == path).getLast?).map (·.2)

def setItem (v : View) (position : Nat) (label : Text) (status : Option Status) : View :=
  match v.items[position]? with
  | none => v
  | some item =>
    if item.final then v
    else
      { v with
        items := v.items.set position
          { item with
            status := label
            final := status == some .done || status == some .error }
        failed := if status == some .error then v.failed + 1 else v.failed }

def apply (v : View) (file : Text) (step : Option Step) (status : Option Status) (cached : Bool) :
    View :=
  match label? step status cached with
  | none => v
  | some label =>
    if file.isEmpty then { v with label }
    else match v.position? file with
      | some position => v.setItem position label status
      | none => v

def close (v : View) : View :=
  { v with done := true }

def frames : List Text := ["⣾ ", "⣽ ", "⣻ ", "⢿ ", "⡿ ", "⣟ ", "⣯ ", "⣷ "]

def tick (v : View) : View :=
  if v.done then v else { v with frame := (v.frame + 1) % frames.length }

def resize (v : View) (width : Int) : View :=
  if 0 < width then { v with width, barWidth := width - 4 } else v

def header (v : View) : Text :=
  let title := if v.label.isEmpty then v.title else .concat [v.title, " (", v.label, ")"]
  if !v.done then .concat [frames.getD v.frame [], " ", title]
  else if v.failed = 0 then "done: " ++ title
  else
    .concat ["failed: ", title, ", ", .ofNat v.failed, " of ", .ofNat v.items.length, " files"]

def expandTabs (t : Text) : Text :=
  Text.replaceAll "\t" "    " t

/-- A text as a block on the screen: tabs are widened, and shorter lines are filled up. -/
def block (t : Text) : Text :=
  let lines := (expandTabs t).split Text.newline
  let width := lines.foldl (fun w line => max w line.columns) 0
  let fill (line : Text) : Text := line ++ List.replicate (width - line.columns) Text.blank
  match lines with
  | [line] => line
  | lines => .joinLines (lines.map fill)

def shorten (width : Nat) (name : Text) : Text :=
  if name.width ≤ width then name else Text.truncate (width - 3) "..." name

def itemLine (v : View) (item : Item) : Text :=
  let nameWidth := (max (v.width - 16) 20).toNat
  .concat ["  ", Text.padLeft 12 item.status, " ", shorten nameWidth item.path]

/-- The bar shows nothing or all of the way. -/
def bar (v : View) : Text :=
  let cells := (v.barWidth - 5).toNat
  if v.done then Text.repeated cells "█" ++ " 100%" else Text.repeated cells "░" ++ "   0%"

def render (v : View) : Text :=
  if v.items.isEmpty then []
  else
    .lines
      (block v.header :: [] :: (v.items.map v.itemLine ++ [[], v.bar]))

end View

end MiddleEnd.Progress
