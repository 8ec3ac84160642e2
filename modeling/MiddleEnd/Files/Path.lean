import MiddleEnd.Text.Basic

/-!
Paths with slashes. All of this is about the text of a path; nothing looks at files.
-/

namespace MiddleEnd.Path

def slash : UInt8 := 47

def dots : Text := ".."

def isAbsolute (path : Text) : Bool :=
  path.head? = some slash

def parts (path : Text) : List Text :=
  (path.split slash).filter fun part => !part.isEmpty && part != Text.ofString "."

/-- Takes back a part for every pair of dots. Pairs with nothing to take back are dropped below the
root. -/
def reduce (rooted : Bool) (parts : List Text) : List Text :=
  (parts.foldl
    (fun (kept : List Text) part =>
      if part == dots then
        match kept with
        | [] => if rooted then [] else [part]
        | last :: before => if last == dots then part :: kept else before
      else part :: kept)
    []).reverse

def clean (path : Text) : Text :=
  let rooted := isAbsolute path
  let text := Text.join [slash] (reduce rooted (parts path))
  if rooted then slash :: text else if text.isEmpty then "." else text

def join (dir path : Text) : Text :=
  match dir.isEmpty, path.isEmpty with
  | true, true => []
  | true, false => clean path
  | false, true => clean dir
  | false, false => clean (dir ++ slash :: path)

def split (path : Text) : Text × Text :=
  let file := (path.reverse.takeWhile (· != slash)).reverse
  (path.take (path.length - file.length), file)

def dir (path : Text) : Text :=
  clean (split path).1

def base (path : Text) : Text :=
  if path.isEmpty then "."
  else
    let trimmed := (path.reverse.dropWhile (· == slash)).reverse
    if trimmed.isEmpty then [slash] else (split trimmed).2

def extension (path : Text) : Text :=
  let last := path.reverse.takeWhile (· != slash)
  if last.contains (Text.byte '.') then
    Text.byte '.' :: (last.takeWhile (· != Text.byte '.')).reverse
  else []

def absolute (workDir path : Text) : Text :=
  if isAbsolute path then clean path else join workDir path

/-- The way from an absolute directory to an absolute path below it or the directory itself. -/
def below? (dir path : Text) : Option Text :=
  let dirParts := reduce true (parts dir)
  let pathParts := reduce true (parts path)
  if dirParts.isPrefixOf pathParts then
    match pathParts.drop dirParts.length with
    | [] => some "."
    | rest => some (Text.join [slash] rest)
  else none

end MiddleEnd.Path
