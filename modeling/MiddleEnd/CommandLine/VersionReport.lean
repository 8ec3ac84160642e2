import MiddleEnd.CommandLine.Console
import MiddleEnd.CommandLine.Flag

/-!
What the tool tells about itself.
-/

namespace MiddleEnd.CommandLine

def valueOrUnknown (t : Text) : Text :=
  if t.isEmpty then "unknown" else t

def versionFacts (info : BuildInfo) (given : Given) : List (Text × Text × Text) :=
  let asked (name : Text) : Bool := given.switch name false || given.switch "full" false
  let facts : List (Text × Text × Text × Text) :=
    [("hash", "git_commit", "commit: ", info.commit),
      ("message", "git_message", "message: ", info.message),
      ("date", "build_date", "built:  ", info.date)]
  facts.filterMap fun (flag, key, heading, value) =>
    if asked flag then some (key, heading, valueOrUnknown value.trim) else none

def runVersion (env : Environment) (given : Given) : RunM Unit := do
  let facts := versionFacts env.build given
  let format := given.text "format" "pretty"
  if format.lower == Text.ofString "json" then
    let version := env.build.version.trim
    let version : Text := if version.isEmpty then "dev" else version
    let members : List (Text × Json) :=
      ("tool", .string "lowc") :: ("version", .string version) ::
        facts.map fun (key, _, value) => (key, .string value)
    print (Json.object members).pretty
  else if format.lower == Text.ofString "pretty" then
    print (.concat ["lowc ", env.build.banner env.colored, "\n"])
    print (facts.flatMap fun (_, heading, value) => Text.concat [heading, value, "\n"])
  else
    throw (.plain (.concat
      ["unsupported format ", format.quoted, " (must be pretty or json)"]))

end MiddleEnd.CommandLine
