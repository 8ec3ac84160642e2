import MiddleEnd.Files.Tree
import MiddleEnd.Interchange.File
import MiddleEnd.Text.Normal.Form

/-!
Trees of the language in files. The name of a file decides its format.
-/

namespace MiddleEnd.FileTree

open Interchange (Format)

/-- The tree in a file. A directory can be opened, but there is nothing to decode in it. -/
def readSource (t : FileTree) (path : Text) : Except Failure Interchange.File :=
  let format := Format.ofPath path
  let failing (cause : Failure) : Failure := .context (path ++ ": ") cause
  match t.open path with
  | .error e => .error (.path e)
  | .ok .dir => .error (failing (.decoding format (.path (readRefusal path))))
  | .ok (.file content) =>
    (Interchange.decode Text.normalize format content).mapError fun e => failing (.ofDecode e)

/-- The file is created before it is known whether the tree can be written. -/
def writeSource (t : FileTree) (path : Text) (source : Interchange.File) :
    Except Failure Unit × FileTree :=
  let encoded := Interchange.encode (Format.ofPath path) (some source)
  match t.write path (encoded.toOption.getD []) with
  | .error e => (.error (.path e), t)
  | .ok t => ((encoded.mapError .ofEncode).map fun _ => (), t)

end MiddleEnd.FileTree
