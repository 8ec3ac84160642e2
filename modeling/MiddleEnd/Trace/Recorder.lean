import MiddleEnd.Trace.Tracer

/-!
Recording spans and points. What runs in a span is handed its context. A span that its level does
not record leaves no trace, and what runs in it keeps the context around it.
-/

namespace MiddleEnd.Trace

/-- A span that was begun; it is not recorded when its id is zero. -/
structure Span where
  id : Nat
  parent : Nat
  scope : Scope
  name : Text
  extra : Option Notes := none
  deriving DecidableEq, Repr, Inhabited

/-- `now` is the time of the next event. -/
structure Recorder where
  tracer : Tracer
  lastSpan : Nat := 0
  lastSeq : Nat := 0
  now : Instant := 0
  deriving Repr, Inhabited

namespace Recorder

def ofTracer (tracer : Tracer) : Recorder := { tracer }

def records (r : Recorder) (scope : Scope) : Bool :=
  r.tracer.isOn && r.tracer.level.records scope

def emit (r : Recorder) (e : Event) : Recorder :=
  let seq := r.lastSeq + 1
  { r with tracer := r.tracer.emit { e with time := r.now, seq }, lastSeq := seq }

end Recorder

/-- The innermost recorded span around what runs, zero if there is none. -/
abbrev Context := Nat

abbrev TraceM := StateM Recorder

def start (ctx : Context) (scope : Scope) (name : Text) : TraceM (Context × Span) := do
  let r ← get
  if r.records scope then
    let id := r.lastSpan + 1
    set ({ r with lastSpan := id }.emit
      { kind := .spanBegin, scope, span := id, parent := ctx, name })
    return (id, { id, parent := ctx, scope, name })
  else return (ctx, { id := 0, parent := ctx, scope, name })

def point (ctx : Context) (scope : Scope) (name detail : Text) : TraceM Unit :=
  modify fun r =>
    if r.records scope then r.emit { kind := .point, scope, parent := ctx, name, detail } else r

namespace Span

def note (s : Span) (key value : Text) : Span :=
  if s.id = 0 then s else { s with extra := some ((s.extra.getD []).insert key value) }

def noteAll (s : Span) (notes : Notes) : Span :=
  notes.foldl (fun s (key, value) => s.note key value) s

def finish (s : Span) (detail : Text := []) : TraceM Unit :=
  modify fun r =>
    if s.id = 0 then r
    else
      r.emit
        { kind := .spanEnd, scope := s.scope, span := s.id, parent := s.parent, name := s.name,
          detail, extra := s.extra }

end Span

end MiddleEnd.Trace
