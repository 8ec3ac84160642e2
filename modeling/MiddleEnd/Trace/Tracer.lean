import MiddleEnd.Trace.Ring

/-!
Where events go: nowhere, into a ring, or into a stream that is written as they come.
-/

namespace MiddleEnd.Trace

structure Stream where
  level : Level
  format : Format
  origin : Instant
  written : Text
  deriving Repr, Inhabited

inductive Tracer where
  | off
  | ring (r : Ring)
  | stream (s : Stream)
  deriving Repr, Inhabited

namespace Tracer

/-- The tracer of a level: none when it is off, a ring for failures, a stream for all else. -/
def ofLevel (level : Level) (format : Format) (path : Text) (capacity : Int) (origin : Instant) :
    Tracer :=
  match level with
  | .off => .off
  | .error => .ring (.start capacity .error)
  | _ =>
    let format := if format = .auto then .ofPath path else format
    .stream { level, format, origin, written := [] }

def level : Tracer → Level
  | .off => .off
  | .ring r => r.level
  | .stream s => s.level

def isOn (t : Tracer) : Bool := t.level.isOn

def emit (t : Tracer) (e : Event) : Tracer :=
  match t with
  | .off => .off
  | .ring r => .ring (r.emit e)
  | .stream s =>
    if s.level.records e.scope then
      .stream { s with written := s.written ++ e.print s.format s.origin }
    else .stream s

def dumpOnFailure : Tracer → Text
  | .ring r => r.dump .text
  | .off | .stream _ => []

def written : Tracer → Text
  | .stream s => s.written
  | .off | .ring _ => []

end Tracer

end MiddleEnd.Trace
