/-!
Computations that may fail, taken apart step by step.
-/

namespace MiddleEnd

variable {ε α β : Type}

@[simp] theorem ok_bind (a : α) (f : α → Except ε β) : (Except.ok a >>= f) = f a := rfl

@[simp] theorem error_bind (e : ε) (f : α → Except ε β) :
    ((Except.error e : Except ε α) >>= f) = Except.error e := rfl

variable {x : Except ε α} {ε' : Type}

theorem bind_eq_ok {f : α → Except ε β} : (x >>= f) = .ok b ↔ ∃ a, x = .ok a ∧ f a = .ok b := by
  cases x with
  | error e => simp
  | ok a => simp

@[simp] theorem ok_map (a : α) (f : α → β) : (Except.ok a : Except ε α).map f = .ok (f a) := rfl

@[simp] theorem error_map (e : ε) (f : α → β) :
    (Except.error e : Except ε α).map f = .error e := rfl

@[simp] theorem ok_mapError (a : α) (f : ε → ε') : (Except.ok a).mapError f = .ok a := rfl

@[simp] theorem error_mapError (e : ε) (f : ε → ε') :
    (Except.error e : Except ε α).mapError f = .error (f e) := rfl

theorem mapError_eq_ok {f : ε → ε'} : x.mapError f = .ok a ↔ x = .ok a := by
  cases x with
  | error e => simp
  | ok a => simp

@[simp] theorem toOption_ok (a : α) : (Except.ok a : Except ε α).toOption = some a := rfl

theorem toOption_eq_some : x.toOption = some a ↔ x = .ok a := by
  cases x with
  | error e => exact iff_of_false (fun same => nomatch same) (fun same => nomatch same)
  | ok b =>
    constructor
    · intro same
      exact congrArg Except.ok (Option.some.inj same)
    · intro same
      exact congrArg some (Except.ok.inj same)

theorem toOption_mapError (x : Except ε α) (f : ε → ε') : (x.mapError f).toOption = x.toOption := by
  cases x <;> rfl

theorem toOption_bind (x : Except ε α) (f : α → Except ε β) :
    (x >>= f).toOption = x.toOption.bind fun a => (f a).toOption := by
  cases x <;> rfl

/-- A computation that succeeds gives what is accepted, and one that fails does so for a reason that
is allowed. -/
def Delivers (x : Except ε α) (accepted : α → Prop) (allowed : ε → Prop) : Prop :=
  match x with
  | .ok a => accepted a
  | .error e => allowed e

theorem delivers_self (x : Except ε α) : Delivers x (fun a => x = .ok a) fun e => x = .error e := by
  cases x <;> rfl

theorem Delivers.bind {f : α → Except ε β} {accepted : α → Prop} {accepted' : β → Prop}
    {allowed : ε → Prop} (first : Delivers x accepted allowed)
    (rest : ∀ a, accepted a → Delivers (f a) accepted' allowed) :
    Delivers (x >>= f) accepted' allowed := by
  cases x with
  | error e => exact first
  | ok a => exact rest a first

theorem Delivers.mapError {f : ε → ε'} {accepted : α → Prop} {allowed : ε → Prop}
    {allowed' : ε' → Prop} (delivers : Delivers x accepted allowed)
    (wider : ∀ e, allowed e → allowed' (f e)) : Delivers (x.mapError f) accepted allowed' := by
  cases x with
  | error e => exact wider e delivers
  | ok a => exact delivers

end MiddleEnd
