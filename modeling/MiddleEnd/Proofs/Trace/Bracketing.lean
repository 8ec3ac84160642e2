import MiddleEnd.Trace.Recorder

/-!
The events of a trace are brackets, and every event names the innermost recorded span around it.
-/

namespace MiddleEnd.Trace

open List

variable {α β : Type} {events : List Event} {r : Recorder} {ctx : Context} {scope : Scope}

/-- Events that stand below span `parent`: points, and spans with a balanced inside. An end repeats
what its beginning says. -/
inductive Bracketed : (parent : Nat) → List Event → Prop
  | nil {parent : Nat} : Bracketed parent []
  | point {parent : Nat} {e : Event} {rest : List Event} (kind : e.kind = .point)
      (below : e.parent = parent) (behind : Bracketed parent rest) : Bracketed parent (e :: rest)
  | span {parent : Nat} {first last : Event} {inner rest : List Event}
      (begins : first.kind = .spanBegin) (below : first.parent = parent)
      (ends : last.kind = .spanEnd) (sameSpan : last.span = first.span)
      (sameName : last.name = first.name) (sameScope : last.scope = first.scope)
      (sameParent : last.parent = first.parent)
      (inside : Bracketed first.span inner) (behind : Bracketed parent rest) :
      Bracketed parent (first :: (inner ++ last :: rest))

/-- The spans of all events of a kind. -/
def spans (kind : Kind) (events : List Event) : List Nat :=
  (events.filter fun e => e.kind == kind).map Event.span

theorem spans_cons (kind : Kind) (e : Event) (events : List Event) :
    spans kind (e :: events) = (if e.kind = kind then [e.span] else []) ++ spans kind events := by
  unfold spans
  by_cases same : e.kind = kind <;> simp [same]

theorem spans_append (kind : Kind) (events more : List Event) :
    spans kind (events ++ more) = spans kind events ++ spans kind more := by
  simp [spans]

namespace Bracketed

theorem append (front : Bracketed parent events) (behind : Bracketed parent more) :
    Bracketed parent (events ++ more) := by
  induction front with
  | nil => exact behind
  | point kind below _ ih => exact .point kind below (ih behind)
  | span begins below ends sameSpan sameName sameScope sameParent inside _ _ ih =>
    rw [cons_append, append_assoc, cons_append]
    exact .span begins below ends sameSpan sameName sameScope sameParent inside (ih behind)

theorem ended_perm (bracketed : Bracketed parent events) :
    (spans .spanEnd events).Perm (spans .spanBegin events) := by
  induction bracketed with
  | nil => exact .nil
  | point kind below _ ih =>
    rw [spans_cons, spans_cons, kind]
    exact ih
  | span begins below ends sameSpan _ _ _ _ _ insideIH behindIH =>
    simp only [spans_cons, spans_append, begins, ends, sameSpan, reduceCtorEq, if_true,
      if_false, nil_append, cons_append]
    exact perm_middle.trans ((insideIH.append behindIH).cons _)

end Bracketed

namespace Tracer

def emitAll (t : Tracer) (events : List Event) : Tracer := events.foldl emit t

theorem emitAll_append (t : Tracer) (events more : List Event) :
    t.emitAll (events ++ more) = (t.emitAll events).emitAll more :=
  foldl_append

@[simp] theorem level_emit (t : Tracer) (e : Event) : (t.emit e).level = t.level := by
  cases t with
  | off => rfl
  | ring r =>
    simp only [emit, level, Ring.emit]
    split <;> rfl
  | stream s =>
    simp only [emit]
    split <;> rfl

@[simp] theorem level_emitAll (t : Tracer) (events : List Event) :
    (t.emitAll events).level = t.level := by
  induction events generalizing t with
  | nil => rfl
  | cons e rest ih => exact (ih (t.emit e)).trans (level_emit t e)

end Tracer

namespace Recorder

def onto (r : Recorder) (tracer : Tracer) : Recorder := { r with tracer }

/-- The recorder after these events: the tracer has them in order, and the numbers are used up. -/
def after (r : Recorder) (events : List Event) : Recorder :=
  { r with
    tracer := r.tracer.emitAll events
    lastSpan := r.lastSpan + (spans .spanBegin events).length
    lastSeq := r.lastSeq + events.length }

theorem onto_after (r : Recorder) (tracer : Tracer) (events : List Event) :
    (r.onto tracer).after events = (r.after events).onto (tracer.emitAll events) :=
  rfl

theorem after_append (r : Recorder) (events more : List Event) :
    r.after (events ++ more) = (r.after events).after more := by
  simp only [after, Tracer.emitAll_append, spans_append, length_append, Nat.add_assoc]

theorem records_of_level {s : Recorder} (same : s.tracer.level = r.tracer.level) (scope : Scope) :
    s.records scope = r.records scope := by
  simp only [records, Tracer.isOn, same]

theorem records_after (r : Recorder) (events : List Event) (scope : Scope) :
    (r.after events).records scope = r.records scope :=
  records_of_level (Tracer.level_emitAll _ _) scope

/-- The event as it is recorded. -/
def stamp (r : Recorder) (e : Event) : Event := { e with time := r.now, seq := r.lastSeq + 1 }

end Recorder

/-- What steps come to and record: these events and no others, whichever tracer of the level takes
them. -/
structure Emits (r : Recorder) (x : TraceM α) (a : α) (events : List Event) : Prop where
  handed : ∀ tracer : Tracer, tracer.level = r.tracer.level →
    x.run (r.onto tracer) = (a, (r.onto tracer).after events)
  recorded : ∀ e ∈ events, r.records e.scope = true
  numbered : spans .spanBegin events =
    List.range' (r.lastSpan + 1) (spans .spanBegin events).length

namespace Emits

variable {x : TraceM α} {e : Event}

theorem nothing (runs : ∀ tracer : Tracer, tracer.level = r.tracer.level →
    x.run (r.onto tracer) = (a, r.onto tracer)) : Emits r x a [] :=
  ⟨runs, nofun, rfl⟩

theorem event (recorded : r.records e.scope = true)
    (fresh : e.kind = .spanBegin → e.span = r.lastSpan + 1)
    (runs : ∀ tracer : Tracer, tracer.level = r.tracer.level →
      x.run (r.onto tracer) = (a, (r.onto tracer).after [r.stamp e])) :
    Emits r x a [r.stamp e] where
  handed := runs
  recorded := forall_mem_singleton.mpr recorded
  numbered := by
    by_cases begins : e.kind = .spanBegin
    · simp [spans, Recorder.stamp, begins, fresh begins]
    · simp [spans, Recorder.stamp, begins]

theorem bind {f : α → TraceM β} (first : Emits r x a events)
    (second : Emits (r.after events) (f a) b more) : Emits r (x >>= f) b (events ++ more) where
  handed tracer level := by
    have kept : (tracer.emitAll events).level = (r.after events).tracer.level := by
      simp [Recorder.after, level]
    change (f (x.run (r.onto tracer)).1).run (x.run (r.onto tracer)).2 = _
    rw [first.handed tracer level, Recorder.onto_after, second.handed _ kept, ← Recorder.onto_after,
      Recorder.after_append]
  recorded := forall_mem_append.mpr ⟨first.recorded, fun e mem =>
    (r.records_after events e.scope).symm.trans (second.recorded e mem)⟩
  -- The second part numbers its spans on from the first.
  numbered := by
    have front := first.numbered
    have behind : spans .spanBegin more =
        List.range' (r.lastSpan + (spans .spanBegin events).length + 1) _ := second.numbered
    rw [spans_append, length_append, ← List.range'_append_1, ← front, Nat.add_right_comm, ← behind]

end Emits

/-- However the level is set, steps record nothing but brackets in their context. -/
def Brackets (ctx : Context) (x : TraceM α) : Prop :=
  ∀ r, ∃ a events, Emits r x a events ∧ Bracketed ctx events

/-- A span around steps that run in its context, with notes of what they come to. -/
def inSpan (ctx : Context) (scope : Scope) (name : Text) (body : Context → TraceM α)
    (notes : α → Notes) : TraceM α := do
  let (ctx, span) ← start ctx scope name
  let a ← body ctx
  (span.noteAll (notes a)).finish
  return a

/-- One span of that scope and name around all other events. -/
def Enclosed (scope : Scope) (name : Text) (extra : Option Notes) (events : List Event) : Prop :=
  ∃ (first last : Event) (inner : List Event), events = first :: (inner ++ [last]) ∧
    first.kind = .spanBegin ∧ first.scope = scope ∧ first.name = name ∧
    last.kind = .spanEnd ∧ last.span = first.span ∧ last.extra = extra

theorem Span.noteAll_eq (s : Span) (notes : Notes) :
    ∃ extra, s.noteAll notes = { s with extra } := by
  induction notes generalizing s with
  | nil => exact ⟨s.extra, rfl⟩
  | cons entry rest ih =>
    obtain ⟨extra, same⟩ := ih (s.note entry.1 entry.2)
    refine ⟨extra, same.trans ?_⟩
    unfold Span.note
    split <;> rfl

namespace Span

def beginning (s : Span) : Event :=
  { kind := .spanBegin, scope := s.scope, span := s.id, parent := s.parent, name := s.name }

def ending (s : Span) : Event :=
  { kind := .spanEnd, scope := s.scope, span := s.id, parent := s.parent, name := s.name,
    extra := s.extra }

end Span

def Recorder.next (r : Recorder) (ctx : Context) (scope : Scope) (name : Text) : Span :=
  { id := r.lastSpan + 1, parent := ctx, scope := scope, name := name }

theorem run_start (ctx : Context) (scope : Scope) (name : Text) (r : Recorder) :
    (start ctx scope name).run r =
      if r.records scope then
        ((r.lastSpan + 1, r.next ctx scope name),
          r.after [r.stamp (r.next ctx scope name).beginning])
      else ((ctx, { id := 0, parent := ctx, scope, name }), r) := by
  change (if r.records scope then _ else _ : TraceM _).run r = _
  split <;> rfl

namespace Emits

theorem start (recorded : r.records scope = true) (ctx : Context) (name : Text) :
    Emits r (Trace.start ctx scope name) (r.lastSpan + 1, r.next ctx scope name)
      [r.stamp (r.next ctx scope name).beginning] := by
  refine .event recorded (fun _ => rfl) fun tracer level => ?_
  rw [run_start, if_pos ((Recorder.records_of_level level scope).trans recorded)]
  rfl

theorem unrecordedStart (unrecorded : r.records scope = false) (ctx : Context) (name : Text) :
    Emits r (Trace.start ctx scope name) (ctx, { id := 0, parent := ctx, scope, name }) [] := by
  refine .nothing fun tracer level => ?_
  rw [run_start, (Recorder.records_of_level level scope).trans unrecorded]
  rfl

theorem finish {s : Span} (real : s.id ≠ 0) (recorded : r.records s.scope = true) :
    Emits r s.finish () [r.stamp s.ending] := by
  refine .event recorded nofun fun tracer level => ?_
  change ((), if s.id = 0 then _ else _) = _
  rw [if_neg real]
  rfl

end Emits

theorem inSpan_brackets {body : Context → TraceM α} (inside : ∀ ctx, Brackets ctx (body ctx))
    (ctx : Context) (scope : Scope) (name : Text) (notes : α → Notes) (r : Recorder) :
    ∃ a events, Emits r (inSpan ctx scope name body notes) a events ∧ Bracketed ctx events ∧
      (r.records scope = true → Enclosed scope name
        ((r.next ctx scope name).noteAll (notes a)).extra events) := by
  cases recorded : r.records scope with
  | true =>
    have begins := Emits.start recorded ctx name
    obtain ⟨a, inner, emits, nested⟩ :=
      inside (r.lastSpan + 1) (r.after [r.stamp (r.next ctx scope name).beginning])
    obtain ⟨extra, noted⟩ := (r.next ctx scope name).noteAll_eq (notes a)
    have still := (Recorder.records_after _ inner scope).trans
      ((r.records_after [r.stamp (r.next ctx scope name).beginning] scope).trans recorded)
    have ends := Emits.finish (s := { r.next ctx scope name with extra }) (Nat.succ_ne_zero _) still
    rw [← noted] at ends
    refine ⟨a, _, begins.bind (emits.bind (ends.bind (.nothing fun _ _ => rfl))), ?_, ?_⟩
    · rw [noted]
      exact .span rfl rfl rfl rfl rfl rfl rfl nested .nil
    · rw [noted]
      exact fun _ => ⟨_, _, inner, rfl, rfl, rfl, rfl, rfl, rfl, rfl⟩
  | false =>
    have begins := Emits.unrecordedStart recorded ctx name
    obtain ⟨a, inner, emits, nested⟩ := inside ctx r
    obtain ⟨extra, noted⟩ :=
      Span.noteAll_eq { id := 0, parent := ctx, scope, name } (notes a)
    have ends : Emits (r.after inner)
        (Span.noteAll { id := 0, parent := ctx, scope, name } (notes a)).finish () [] :=
      .nothing fun _ _ => by rw [noted]; rfl
    refine ⟨a, _, begins.bind (emits.bind (ends.bind (.nothing fun _ _ => rfl))), ?_, nofun⟩
    simpa using nested

namespace Brackets

theorem pure (ctx : Context) (a : α) : Brackets ctx (Pure.pure a) :=
  fun _ => ⟨a, [], .nothing fun _ _ => rfl, .nil⟩

theorem bind {x : TraceM α} {f : α → TraceM β} (first : Brackets ctx x)
    (rest : ∀ a, Brackets ctx (f a)) : Brackets ctx (x >>= f) := by
  intro r
  obtain ⟨a, events, emits, nested⟩ := first r
  obtain ⟨b, more, emits', nested'⟩ := rest a (r.after events)
  exact ⟨b, _, emits.bind emits', nested.append nested'⟩

theorem point (ctx : Context) (scope : Scope) (name detail : Text) :
    Brackets ctx (Trace.point ctx scope name detail) := by
  intro r
  have runs (tracer : Tracer) (level : tracer.level = r.tracer.level) :
      (Trace.point ctx scope name detail).run (r.onto tracer) =
        ((), if r.records scope then (r.onto tracer).emit
          { kind := .point, scope, parent := ctx, name, detail } else r.onto tracer) := by
    rw [← Recorder.records_of_level (s := r.onto tracer) level scope]
    rfl
  cases recorded : r.records scope with
  | true =>
    simp only [recorded, if_true] at runs
    exact ⟨(), [r.stamp { kind := .point, scope, parent := ctx, name, detail }],
      .event recorded nofun runs, .point rfl rfl .nil⟩
  | false =>
    simp only [recorded] at runs
    exact ⟨(), [], .nothing runs, .nil⟩

/-- Steps that begin a span, run in its context, end it and go on. -/
theorem span {f : Context × Span → TraceM β} {x : Context → TraceM α} {k : α → TraceM β}
    (notes : α → Notes)
    (steps : ∀ ctx span, f (ctx, span) =
      x ctx >>= fun a => (span.noteAll (notes a)).finish >>= fun _ => k a)
    (inside : ∀ ctx, Brackets ctx (x ctx)) (behind : ∀ a, Brackets ctx (k a)) :
    Brackets ctx (start ctx scope name >>= f) := by
  have whole : (start ctx scope name >>= f) = Trace.inSpan ctx scope name x notes >>= k := by
    have each : f = fun p => x p.1 >>= fun a =>
        (p.2.noteAll (notes a)).finish >>= fun _ => k a := funext fun p => steps p.1 p.2
    simp only [each, Trace.inSpan, bind_assoc, pure_bind]
  rw [whole]
  refine Brackets.bind (fun r => ?_) behind
  obtain ⟨a, events, emits, nested, -⟩ := inSpan_brackets inside ctx scope name notes r
  exact ⟨a, events, emits, nested⟩

theorem emptySpan {f : Context × Span → TraceM β} {rest : TraceM β} (notes : Notes)
    (steps : ∀ ctx span, f (ctx, span) = (span.noteAll notes).finish >>= fun _ => rest)
    (behind : Brackets ctx rest) : Brackets ctx (start ctx scope name >>= f) :=
  span (x := fun _ => Pure.pure ()) (k := fun _ => rest) (fun _ => notes) steps
    (fun ctx => .pure ctx ()) fun _ => behind

theorem map {x : TraceM β} {y : TraceM α} (g : α → β) (brackets : Brackets ctx y)
    (same : ∀ r, x.run r = (g (y.run r).1, (y.run r).2)) : Brackets ctx x := by
  have whole : x = y >>= fun a => Pure.pure (g a) := funext same
  rw [whole]
  exact brackets.bind fun _ => .pure ctx _

theorem forM {l : List α} {f : α → TraceM Unit} (each : ∀ a, Brackets ctx (f a)) :
    Brackets ctx (l.forM f) := by
  induction l with
  | nil => exact .pure ctx ()
  | cons a rest ih => exact (each a).bind fun _ => ih

end Brackets

end MiddleEnd.Trace
