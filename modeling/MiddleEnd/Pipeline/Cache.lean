import MiddleEnd.Digest
import MiddleEnd.Files.Source
import MiddleEnd.Pipeline.Product

/-!
A directory that keeps the output of earlier compilations under a digest of all that decides it.
-/

namespace MiddleEnd.Pipeline

open Interchange (Format RecordType)

structure CacheEntry where
  name : Text
  emit : Text
  version : Text
  output : Text
  deriving DecidableEq, Repr, Inhabited

namespace CacheEntry

def schema : Int := 1

def toDatum (e : CacheEntry) : Datum :=
  .record
    [.number schema, .text e.name, .text e.emit, .text e.version,
      if e.output.isEmpty then .absent else .text e.output]

/-- Entries of another schema do not count. -/
def ofDatum? : Datum → Option CacheEntry
  | .record [.number n, .text name, .text emit, .text version, output] =>
    if n = schema then
      some
        { name, emit, version,
          output := match output with
            | .text t => t
            | _ => [] }
    else none
  | _ => none

def encode (e : CacheEntry) : Text :=
  ((Interchange.writeMessagePack .cacheEntry e.toDatum).toOption).getD []

end CacheEntry

structure Cache where
  dir : Text
  deriving DecidableEq, Repr, Inhabited

namespace Cache

def «open» (dir : Text) (files : FileTree) : Except PathError (Cache × FileTree) :=
  (files.makeDirs dir).map fun files => (⟨dir⟩, files)

def entriesDir (c : Cache) : Text :=
  Path.join c.dir "ir"

def entryPath (c : Cache) (key : Digest) : Text :=
  Path.join c.entriesDir (key.hex ++ ".mp")

/-- Digests the module together with every option that changes the output, and the version of the
tool. -/
def key (version : Text) (o : Options) (m : Module) : Except Interchange.EncodeError Digest := do
  let encoded ← Interchange.encode .messagePack
    (some { schema := 0, producer := [], module := m })
  let settings : Text := .concat
    ["fold=", .ofBool o.fold, ";simplify=", .ofBool o.simplify, ";emit=", o.emitMode,
      ";version=", version]
  return Digest.combine (Digest.sum encoded) [Digest.sum settings]

/-- The entry of a key. One that is not there or of another schema is none; one that cannot be read
is a failure. -/
def get (c : Cache) (files : FileTree) (key : Digest) : Except Failure (Option CacheEntry) :=
  let path := c.entryPath key
  let refuse (cause : Failure) : Except Failure (Option CacheEntry) :=
    .error (.cache "read" key.hex cause)
  let corrupt (cause : Failure) := refuse (.context "corrupt entry: " cause)
  match files.find path with
  | .error .missing => .ok none
  | .error reason => refuse (.path (FileTree.refuse "open" path reason))
  | .ok .dir => corrupt (.path (FileTree.readRefusal path))
  | .ok (.file content) =>
    match Interchange.readMessagePack .cacheEntry content with
    | .error _ => corrupt (.plain "malformed value")
    | .ok d => .ok (CacheEntry.ofDatum? d)

def put (c : Cache) (files : FileTree) (key : Digest) (entry : CacheEntry) :
    Except PathError FileTree := do
  let files ← files.makeDirs c.entriesDir
  files.write (c.entryPath key) entry.encode

def dropAll (c : Cache) (files : FileTree) : FileTree :=
  files.removeAll c.entriesDir

end Cache

end MiddleEnd.Pipeline
