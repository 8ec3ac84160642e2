import MiddleEnd.Failure
import MiddleEnd.Files.Path
import MiddleEnd.Interchange.MessagePackForm
import MiddleEnd.Interchange.Tree
import MiddleEnd.Syntax.Names

/-!
Module files: a schema number, the producer that wrote the file, and one module, in either of two
formats.
-/

namespace MiddleEnd.Interchange

inductive Format where
  | messagePack
  | json
  deriving DecidableEq, Repr, Inhabited

def Format.name : Format → Text
  | .messagePack => "msgpack"
  | .json => "json"

/-- The format by a path's extension: JSON for its own, in any case, and MessagePack for all
others. -/
def Format.ofPath (path : Text) : Format :=
  if (Path.extension path).foldCase == Text.foldCase ".json" then .json else .messagePack

/-- The schema that files are written with, and the only one that is read. -/
def currentSchema : UInt16 := 1

structure File where
  schema : UInt16
  producer : Text
  module : Module
  deriving Repr, BEq, Inhabited

inductive EncodeError where
  | missingModule
  | unknownCode (e : UnknownCode)
  | tooDeep (bracket : UInt8)
  deriving DecidableEq, Repr, Inhabited

def EncodeError.message : EncodeError → Text
  | .missingModule => "ast: encode: missing module"
  | .unknownCode e => e.message
  | .tooDeep bracket => .concat ["invalid character '", [bracket], "' exceeded max depth"]

inductive DecodeError where
  | malformed (format : Format)
  | unknownWord (format : Format) (e : UnknownWord)
  | schema (found : UInt16)
  | missingModule
  | ids (problems : List IdProblem)
  deriving Inhabited

def File.toDatum (f : File) : Datum :=
  .record [.number f.schema.toNat, .text f.producer, f.module.toDatum]

/-- JSON is written no deeper than it is read. -/
def writeJson (r : RecordType) (d : Datum) : Except EncodeError Text := do
  let json ← (toJson (.record r) d).mapError .unknownCode
  match json.tooDeep? Json.maxDepth with
  | some bracket => .error (.tooDeep bracket)
  | none => .ok json.pretty

def Format.write (format : Format) (r : RecordType) (d : Datum) : Except EncodeError Text :=
  match format with
  | .messagePack => (writeMessagePack r d).mapError .unknownCode
  | .json => writeJson r d

def Format.read (format : Format) (r : RecordType) (t : Text) : Except ReadError Datum :=
  match format with
  | .messagePack => readMessagePack r t
  | .json => readJson r t

def File.withSchema (f : File) : File :=
  if f.schema = 0 then { f with schema := currentSchema } else f

def encode (format : Format) : Option File → Except EncodeError Text
  | none => .error .missingModule
  | some f => format.write .file f.withSchema.toDatum

def ofReadError (format : Format) : ReadError → DecodeError
  | .malformed => .malformed format
  | .unknownWord e => .unknownWord format e

/-- Names are put in the normal form that is asked for. -/
def checkedModule (normalize : Text → Text) (d : Datum) : Except DecodeError Module :=
  match Module.ofDatum d with
  | none => .error .missingModule
  | some m =>
    let m := m.mapNames normalize
    match m.idProblems with
    | [] => .ok m
    | problems => .error (.ids problems)

def decode (normalize : Text → Text) (format : Format) (t : Text) : Except DecodeError File := do
  let datum ← (format.read .file t).mapError (ofReadError format)
  match datum with
  | .record [.number schema, .text producer, module] =>
    let schema := UInt16.ofInt schema
    if schema = currentSchema then
      let module ← checkedModule normalize module
      .ok { schema, producer, module }
    else .error (.schema schema)
  | _ => .error (.malformed format)

end MiddleEnd.Interchange

namespace MiddleEnd.Failure

open Interchange

def ofEncode (e : EncodeError) : Failure := .plain e.message

def decoding (format : Format) (cause : Failure) : Failure :=
  .context (.concat ["ast: decode ", format.name, ": "]) cause

def ofDecode : DecodeError → Failure
  | .malformed format => .decoding format (.plain "malformed value")
  | .unknownWord format e => .decoding format (.plain e.message)
  | .schema found =>
    .wrap [] (.condition .schema)
      (.concat [": ", .ofNat found.toNat, " (expected ", .ofNat currentSchema.toNat, ")"])
  | .missingModule => .plain "ast: decode: file has no module"
  | .ids problems => .ofIdProblems problems

end MiddleEnd.Failure
