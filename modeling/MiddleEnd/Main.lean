import MiddleEnd.CommandLine.Run

/-!
The tool on the file system of the machine. What a run may look at is read before it, and what it
changed is written afterwards.
-/

namespace MiddleEnd.CommandLine

def pathOf (parts : List Text) : String :=
  "/" ++ "/".intercalate (parts.map fun part => part.toString?.getD "")

/-- Adds a file, or a directory with all that lies below it. What cannot be read is left out. -/
partial def load (files : FileTree) (path : String) : IO FileTree := do
  let place := (← IO.currentDir) / path
  let whole := Text.ofString place.toString
  try
    if ← place.isDir then
      let files := (files.makeDirs whole).toOption.getD files
      (← place.readDir).foldlM (fun files entry => load files entry.path.toString) files
    else
      let content ← IO.FS.readBinFile place
      let written := do (← files.makeDirs (Path.dir whole)).write whole content.toList
      return written.toOption.getD files
  catch _ => return files

partial def projectRoot? (path : String) : IO (Option String) := do
  let place := (← IO.currentDir) / path
  if ← (place / "lowc.toml").pathExists then return some place.toString
  match place.parent with
  | some parent => if parent == place then return none else projectRoot? parent.toString
  | none => return none

def mentionedPaths (word : String) : List String :=
  word :: (word.splitOn "=").drop 1 ++ if word.startsWith "-" then [(word.drop 2).toString] else []

def store (before after : FileTree) : IO Unit := do
  for (path, node) in after.nodes do
    if before.node? path != some node then
      match node with
      | .dir => IO.FS.createDirAll (pathOf path)
      | .file content =>
        IO.FS.createDirAll (pathOf path.dropLast)
        IO.FS.writeBinFile (pathOf path) (ByteArray.mk content.toArray)
  for (path, node) in before.nodes do
    if (after.node? path).isNone then
      match node with
      | .file _ => IO.FS.removeFile (pathOf path)
      | .dir => pure ()

def write (stream : IO.FS.Stream) (t : Text) : IO Unit := do
  stream.write (ByteArray.mk t.toArray)
  stream.flush

def environment : IO Environment := do
  return {
    cacheHome := Text.ofString ((← IO.getEnv "XDG_CACHE_HOME").getD "")
    home := Text.ofString ((← IO.getEnv "HOME").getD "")
    colored := ← (← IO.getStdout).isTty
    now := ← IO.monoNanosNow }

def loadMentioned (env : Environment) (words : List String) : IO FileTree := do
  let workDir := (← IO.currentDir).toString
  let mentioned ← (words.flatMap mentionedPaths).filterM fun (path : String) => do
    return !path.isEmpty && (← ((← IO.currentDir) / path).pathExists)
  let places := workDir :: mentioned
  let roots ← places.filterMapM projectRoot?
  let cache := ((cacheDir env).toOption.bind Text.toString?).toList
  (places ++ roots ++ cache).eraseDups.foldlM load (.empty (Text.ofString workDir))

end MiddleEnd.CommandLine

open MiddleEnd MiddleEnd.CommandLine in
def main (words : List String) : IO UInt32 := do
  let env ← environment
  let before ← loadMentioned env words
  let exit := run env (words.map Text.ofString) before
  store before exit.files
  write (← IO.getStdout) exit.output.stdout
  write (← IO.getStderr) (exit.output.traced ++ exit.output.stderr)
  return if exit.failure.isSome then 1 else 0
