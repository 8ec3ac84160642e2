import MiddleEnd.Diagnostic.OfFailure

/-!
The diagnostics of a failure: one for each part of the joins in it.
-/

namespace MiddleEnd

open List

theorem Text.after?_append (lead t : Text) : Text.after? lead (lead ++ t) = some t := by
  induction lead with
  | nil => rfl
  | cons b lead ih => rw [cons_append, Text.after?, if_pos rfl, ih]

/-- A part of a failure that tells one cause, the texts in front of the joins that it comes from, and
whether a validation stands in front of one of them. -/
structure Diagnostic.Part where
  lead : Text
  invalid : Bool
  failure : Failure

namespace Diagnostic.Part

def behind (lead : Text) (invalid : Bool) (p : Part) : Part :=
  ⟨lead ++ p.lead, invalid || p.invalid, p.failure⟩

def leaf (before : Text) (code : Code) (p : Part) : Leaf :=
  ⟨before ++ p.lead, p.failure, if p.invalid then Code.invalidIr else code⟩

theorem leaf_behind (before lead : Text) (invalid : Bool) (code : Code) (p : Part) :
    (p.behind lead invalid).leaf before code =
      p.leaf (before ++ lead) (if invalid then Code.invalidIr else code) := by
  cases invalid <;> cases known : p.invalid <;> simp [leaf, behind, known]

end Diagnostic.Part

open Diagnostic (Part)

namespace Failure

/-- The failure tells one cause, through however many contexts. -/
def Joinless : Failure → Prop
  | .join _ | .pair _ _ _ _ => False
  | .validation cause | .cache _ _ cause | .manifest _ _ (some cause) | .wrap _ cause _ =>
    cause.Joinless
  | _ => True

mutual
/-- All contexts put their text in front of their cause, and no text tells two failures. -/
def Leading : Failure → Prop
  | .join parts => LeadingAll parts
  | .pair _ _ _ _ => False
  | .validation cause | .cache _ _ cause | .manifest _ _ (some cause) => cause.Leading
  | .wrap _ cause behind => behind = [] ∧ cause.Leading
  | _ => True
def LeadingAll : List Failure → Prop
  | [] => True
  | f :: fs => f.Leading ∧ LeadingAll fs
end

mutual
/-- The parts of the joins in a failure from left to right; nothing if there is no join in it. -/
def split? : Failure → Option (List Part)
  | .join parts => some (partsOf parts)
  | .validation cause => cause.split?.map (List.map (Part.behind "invalid IR: " true))
  | .cache action key cause =>
    cause.split?.map
      (List.map (Part.behind (.concat ["driver: cache ", action, " ", key.take 12, ": "]) false))
  | .manifest file text (some cause) =>
    cause.split?.map (List.map (Part.behind (.concat [file, ": ", text, ": "]) false))
  | .wrap before cause _ => cause.split?.map (List.map (Part.behind before false))
  | _ => none
def partsOf : List Failure → List Part
  | [] => []
  | f :: fs => f.split?.getD [⟨[], false, f⟩] ++ partsOf fs
end

def parts (f : Failure) : List Part := partsOf [f]

/-- The failure and the causes inside it. -/
def chain (f : Failure) : List Failure :=
  f :: match f with
    | .validation cause | .cache _ _ cause | .manifest _ _ (some cause) | .wrap _ cause _ =>
      cause.chain
    | _ => []

theorem joinless_behind {cause : Failure} (lead : Text) (invalid : Bool)
    (joinless : cause.split?.elim cause.Joinless fun parts => ∀ p ∈ parts, p.failure.Joinless) :
    (cause.split?.map (List.map (Part.behind lead invalid))).elim cause.Joinless
      fun parts => ∀ p ∈ parts, p.failure.Joinless := by
  cases split : cause.split? with
  | none => rwa [split] at joinless
  | some parts =>
    rw [split] at joinless
    exact forall_mem_map.mpr joinless

mutual
theorem joinless_of_split? (f : Failure) (leading : f.Leading) :
    f.split?.elim f.Joinless fun parts => ∀ p ∈ parts, p.failure.Joinless := by
  cases f with
  | join parts => exact joinless_of_partsOf parts leading
  | pair before between first second => exact leading.elim
  | validation cause | cache action key cause =>
    exact joinless_behind _ _ (joinless_of_split? cause leading)
  | wrap before cause behind => exact joinless_behind _ _ (joinless_of_split? cause leading.2)
  | manifest file text cause =>
    cases cause with
    | none => exact trivial
    | some cause => exact joinless_behind _ _ (joinless_of_split? cause leading)
  | _ => exact trivial
theorem joinless_of_partsOf (fs : List Failure) (leading : LeadingAll fs) :
    ∀ p ∈ partsOf fs, p.failure.Joinless := by
  cases fs with
  | nil => exact forall_mem_nil _
  | cons f fs =>
    have here := joinless_of_split? f leading.1
    refine forall_mem_append.mpr ⟨?_, joinless_of_partsOf fs leading.2⟩
    cases split : f.split? with
    | none =>
      rw [split] at here
      exact forall_mem_singleton.mpr here
    | some parts =>
      rw [split] at here
      exact here
end

theorem findSome?_eq_chain {α : Type} (ask : Failure → Option α) (f : Failure)
    (joinless : f.Joinless) : f.findSome? ask = f.chain.findSome? ask := by
  rw [findSome?.eq_def, chain.eq_def, List.findSome?_cons]
  cases here : ask f with
  | some answer => rfl
  | none =>
    cases f with
    | join parts | pair before between first second => exact joinless.elim
    | validation cause | cache action key cause | wrap before cause behind =>
      exact findSome?_eq_chain ask cause joinless
    | manifest file text cause =>
      cases cause with
      | none => rfl
      | some cause => exact findSome?_eq_chain ask cause joinless
    | _ => rfl

end Failure

namespace Diagnostic

theorem leavesWithin_of_joinless {inner : Code} (joinless : f.Joinless) :
    leavesWithin before fallback top inner f = [⟨before, top, fallback⟩] := by
  cases f with
  | join parts | pair before between first second => exact joinless.elim
  | validation cause | cache action key cause | wrap before cause behind =>
    exact leavesWithin_of_joinless (f := cause) joinless
  | manifest file text cause =>
    cases cause with
    | none => rfl
    | some cause => exact leavesWithin_of_joinless (f := cause) joinless
  | _ => rfl

theorem length_ofFailure (joinless : f.Joinless) (file : Text) (fallback : Code) :
    (ofFailure file fallback f).length = 1 := by
  rw [ofFailure, length_map, leavesOf, leavesWithin_of_joinless joinless]
  rfl

theorem trimEnd_append (t ending : Text) : trimEnd (t ++ ending) ending = t := by
  have ends : Text.endsWith ending (t ++ ending) := by
    rw [Text.endsWith, Text.startsWith, reverse_append, Text.after?_append]
    rfl
  rw [trimEnd, if_pos ends, length_append, Nat.add_sub_cancel, take_left]

theorem leaves_behind (cause : Failure) (before lead : Text) (invalid : Bool) (code : Code)
    (whole : List Leaf) :
    ((cause.split?.map (List.map (Part.behind lead invalid))).map
        (List.map (Part.leaf before code))).getD whole =
      (cause.split?.map (List.map (Part.leaf (before ++ lead)
        (if invalid then Code.invalidIr else code)))).getD whole := by
  cases cause.split? with
  | none => rfl
  | some parts => simp [Part.leaf_behind]

-- `lead` is what the contexts between `top` and `f` put in front of the text of `f`.
mutual
theorem leavesWithin_eq (before : Text) (fallback inner : Code) (top f : Failure) (lead : Text)
    (leading : f.Leading) (text : top.message = lead ++ f.message) :
    leavesWithin before fallback top inner f =
      (f.split?.map (List.map (Part.leaf (before ++ lead) inner))).getD
        [⟨before, top, fallback⟩] := by
  cases f with
  | join parts =>
    rw [leavesWithin, text, trimEnd_append]
    exact leavesOf_eq (before ++ lead) inner parts leading
  | pair first between left right => exact leading.elim
  | validation cause | cache action key cause =>
    rw [Failure.split?, leaves_behind, append_assoc]
    exact leavesWithin_eq before fallback _ top cause _ leading
      (by simp [text, Failure.message, Text.concat])
  | wrap front cause behind =>
    obtain ⟨rfl, leading⟩ := leading
    rw [Failure.split?, leaves_behind, append_assoc]
    exact leavesWithin_eq before fallback _ top cause _ leading
      (by simp [text, Failure.message, Text.concat])
  | manifest file said cause =>
    cases cause with
    | none => rfl
    | some cause =>
      rw [Failure.split?, leaves_behind, append_assoc]
      exact leavesWithin_eq before fallback _ top cause _ leading
        (by simp [text, Failure.message, Text.concat])
  | _ => rfl
theorem leavesOf_eq (before : Text) (fallback : Code) (fs : List Failure)
    (leading : Failure.LeadingAll fs) :
    leavesOf before fallback fs = (Failure.partsOf fs).map (Part.leaf before fallback) := by
  cases fs with
  | nil => rfl
  | cons f fs =>
    have here := leavesWithin_eq before fallback fallback f f [] leading.1 rfl
    rw [leavesOf, Failure.partsOf, map_append, leavesOf_eq before fallback fs leading.2, here,
      append_nil]
    congr 1
    cases f.split? with
    | none => simp [Part.leaf]
    | some parts => rfl
end

/-- The code and the node of the first class that a failure of the chain is of. -/
def classOf? (f : Failure) : Option (Code × NodeId) :=
  classes.findSome? fun ask => f.chain.findSome? ask

theorem classify_eq (f : Failure) (joinless : f.Joinless) (fallback : Code) :
    classify f fallback = (classOf? f).getD (fallback, 0) := by
  simp only [classify, classOf?, Failure.findSome?_eq_chain _ f joinless]

/-- A failure is told as one error for each part of its joins, in their order. Where a part has no
class, its code is that of invalid block code behind a validation and else the given one. -/
theorem ofFailure_tells_each_part (file : Text) (fallback : Code) (f : Failure)
    (leading : f.Leading) :
    (∀ p ∈ f.parts, p.failure.Joinless) ∧
    ofFailure file fallback f = f.parts.map fun p =>
      let found := (classOf? p.failure).getD (if p.invalid then Code.invalidIr else fallback, 0)
      { severity := .error, code := found.1, message := p.lead ++ p.failure.message, file := file,
        node := found.2 } := by
  have joinless : ∀ p ∈ f.parts, p.failure.Joinless :=
    Failure.joinless_of_partsOf [f] ⟨leading, trivial⟩
  refine ⟨joinless, ?_⟩
  rw [ofFailure, leavesOf_eq [] fallback [f] ⟨leading, trivial⟩, map_map]
  refine map_congr_left fun p member => ?_
  rw [← classify_eq p.failure (joinless p member)]
  rfl

def nested : Failure :=
  .context "function f: " (.join
    [.check ⟨.unresolved, [], 7, 1⟩,
      .validation (.context "g: " (.join [.plain "a", .cache "read" "key" (.plain "b")]))])

theorem nested_tells_each_part :
    nested.Leading ∧
    (ofFailure "m.last" Code.unknown nested).map Diagnostic.print = List.map Text.ofString
      ["m.last#7: ERROR SEM2002: function f: symbols: unresolved identifier at node 7 (scope 1)",
        "m.last: ERROR IR3201: function f: invalid IR: g: a",
        "m.last: ERROR IO1004: function f: invalid IR: g: driver: cache read key: b"] := by
  have leading : nested.Leading := ⟨rfl, trivial, ⟨rfl, trivial, trivial, trivial⟩, trivial⟩
  refine ⟨leading, ?_⟩
  rw [(ofFailure_tells_each_part "m.last" Code.unknown nested leading).2]
  decide +kernel

end Diagnostic

end MiddleEnd
