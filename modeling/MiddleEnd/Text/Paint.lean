import MiddleEnd.Text.Basic

/-!
Terminal colours.
-/

namespace MiddleEnd

inductive Paint where
  | boldRed
  | boldGreen
  | boldYellow
  | boldBlue
  | boldMagenta
  | cyan
  | faint
  deriving DecidableEq, Repr, Inhabited

def Paint.codes : Paint → Text × Text
  | .boldRed => ("31;1", "0;22")
  | .boldGreen => ("32;1", "0;22")
  | .boldYellow => ("33;1", "0;22")
  | .boldBlue => ("34;1", "0;22")
  | .boldMagenta => ("35;1", "0;22")
  | .cyan => ("36", "0")
  | .faint => ("2", "22")

def Paint.apply (p : Paint) (colored : Bool) (t : Text) : Text :=
  if colored then .concat ["\x1b[", p.codes.1, "m", t, "\x1b[", p.codes.2, "m"] else t

end MiddleEnd
