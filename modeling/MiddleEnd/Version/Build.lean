import MiddleEnd.Failure
import MiddleEnd.Text.Paint
import MiddleEnd.Text.Word
import MiddleEnd.Version.Basic

/-!
The version of this tool, and whether a file's producer fits it.
-/

namespace MiddleEnd

structure BuildInfo where
  version : Text := "0.1.0-dev"
  commit : Text := []
  message : Text := []
  date : Text := []
  deriving DecidableEq, Repr, Inhabited

namespace BuildInfo

def banner (b : BuildInfo) (colored : Bool) : Text :=
  match Version.parse b.version with
  | .error _ => b.version
  | .ok v =>
    let pre : Text := if v.pre.isEmpty then [] else "-" ++ v.pre
    let metadata : Text := if v.metadata.isEmpty then [] else "+" ++ v.metadata
    .concat
      [Paint.boldYellow.apply colored (.ofNat v.major), ".",
        Paint.boldGreen.apply colored (.ofNat v.minor), ".",
        Paint.boldBlue.apply colored (.ofNat v.patch), pre, metadata]

/-- Releases fit if they share the major number, and below release one the minor number too. -/
def accepts (ours theirs : Version) : Bool :=
  theirs.major == ours.major && (ours.major != 0 || theirs.minor == ours.minor)

/-- A producer is a name with a version at its end; one without a version fits. -/
def checkProducer (b : BuildInfo) (producer : Text) : Option Failure :=
  match producer.fields.getLast? with
  | none => none
  | some last =>
    match Version.parse last with
    | .error _ => none
    | .ok theirs =>
      match Version.parse b.version with
      | .error e =>
        some (.context (.concat ["version: bad build version ", b.version.quoted, ": "])
          (.plain e.message))
      | .ok ours =>
        if accepts ours theirs then none
        else
          some (.wrap [] (.condition .producer)
            (.concat [": file written by ", producer.quoted, ", lowc is ", ours.print]))

end BuildInfo

end MiddleEnd
