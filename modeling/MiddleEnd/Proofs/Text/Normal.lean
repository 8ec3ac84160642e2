import MiddleEnd.Proofs.Text.Utf8
import MiddleEnd.Text.Normal.Form

/-!
Normal form C of a valid text is valid: no step from the characters of a text to those of its
composition makes a stray byte.
-/

namespace MiddleEnd.Text

open List

variable {rs : List Rune} {r : Rune}

namespace Normal

def AllChars (rs : List Rune) : Prop := ∀ r ∈ rs, ∃ c, r = .char c

theorem AllChars.nil : AllChars [] := by
  intro r member
  cases member

theorem AllChars.cons {r : Rune} {rs : List Rune} (one : ∃ c, r = .char c) (all : AllChars rs) :
    AllChars (r :: rs) :=
  forall_mem_cons.mpr ⟨one, all⟩

theorem AllChars.append (all : AllChars rs) (all' : AllChars rs') : AllChars (rs ++ rs') :=
  forall_mem_append.mpr ⟨all, all'⟩

theorem AllChars.reverse (all : AllChars rs) : AllChars rs.reverse := by
  intro r member
  exact all r (mem_reverse.mp member)

theorem AllChars.flatMap {α : Type} {xs : List α} {f : α → List Rune}
    (each : ∀ x ∈ xs, AllChars (f x)) : AllChars (xs.flatMap f) := by
  intro r member
  obtain ⟨x, inside, member⟩ := mem_flatMap.mp member
  exact each x inside r member

theorem AllChars.segmentsFrom {segment : List Rune} (begun : AllChars segment) (all : AllChars rs)
    (count : Nat) : ∀ s ∈ segmentsFrom count segment rs, AllChars s := by
  induction rs generalizing count segment with
  | nil => exact forall_mem_singleton.mpr begun.reverse
  | cons r rest ih =>
    obtain ⟨one, others⟩ := forall_mem_cons.mp all
    have fresh : AllChars [r] := .cons one .nil
    simp only [Normal.segmentsFrom]
    split
    · exact forall_mem_cons.mpr ⟨begun.reverse, ih fresh others _⟩
    · split
      · have joined : AllChars (graphemeJoiner :: segment) := .cons ⟨_, rfl⟩ begun
        exact forall_mem_cons.mpr ⟨joined.reverse, ih fresh others _⟩
      · exact ih (.cons one begun) others _

theorem AllChars.piecesFrom {piece : List Rune} (begun : AllChars piece) (all : AllChars rs) :
    ∀ p ∈ piecesFrom piece rs, AllChars p := by
  induction rs generalizing piece with
  | nil => exact forall_mem_singleton.mpr begun.reverse
  | cons r rest ih =>
    obtain ⟨one, others⟩ := forall_mem_cons.mp all
    rw [Normal.piecesFrom]
    split
    · have fresh : AllChars [r] := .cons one .nil
      exact forall_mem_cons.mpr ⟨begun.reverse, ih fresh others⟩
    · exact ih (.cons one begun) others

theorem AllChars.decomposeRune (one : ∃ c, r = .char c) : AllChars (decomposeRune r) := by
  obtain ⟨c, rfl⟩ := one
  intro r member
  obtain ⟨part, -, rfl⟩ := mem_map.mp member
  exact ⟨_, rfl⟩

theorem AllChars.insertOrdered (one : ∃ c, r = .char c) (all : AllChars reversed) :
    AllChars (insertOrdered r reversed) := by
  induction reversed with
  | nil => exact .cons one all
  | cons last rest ih =>
    obtain ⟨first, others⟩ := forall_mem_cons.mp all
    rw [Normal.insertOrdered]
    split
    · exact .cons first (ih others)
    · exact .cons one all

theorem AllChars.ordered (all : AllChars rs) : AllChars (ordered rs) := by
  have folds (reversed : List Rune) (begun : AllChars reversed) :
      AllChars (rs.foldl (fun reversed r => Normal.insertOrdered r reversed) reversed) := by
    induction rs generalizing reversed with
    | nil => exact begun
    | cons r rest ih =>
      obtain ⟨one, others⟩ := forall_mem_cons.mp all
      exact ih others _ (begun.insertOrdered one)
  exact (folds [] .nil).reverse

/-- All that is under way are characters. -/
structure Composing.Clean (s : Composing) : Prop where
  before : AllChars s.before
  base : ∃ c, s.base = .char c
  kept : AllChars s.kept

theorem Composing.Clean.rebased {s : Composing} (clean : s.Clean) : s.rebased.Clean := by
  unfold Composing.rebased
  split
  · exact clean
  · next last rest equation =>
    have kept := clean.kept
    rw [equation] at kept
    obtain ⟨one, others⟩ := forall_mem_cons.mp kept
    split
    · exact ⟨AllChars.append others (.cons clean.base clean.before), one, .nil⟩
    · exact clean

theorem Composing.Clean.join {s : Composing} (clean : s.Clean) (compose? : Nat → Nat → Option Nat)
    (one : ∃ c, r = .char c) : (s.join compose? r).Clean := by
  unfold Composing.join
  split
  · exact ⟨clean.before, ⟨_, rfl⟩, clean.kept⟩
  · exact ⟨clean.before, clean.base, .cons one clean.kept⟩

theorem Composing.Clean.step {s : Composing} (clean : s.Clean) {r : Rune}
    (one : ∃ c, r = .char c) : (s.step r).Clean := by
  have marked : Composing.Clean { s with syllables := true } :=
    ⟨clean.before, clean.base, clean.kept⟩
  unfold Composing.step
  split
  · exact marked.rebased.join composeSyllable? one
  · split
    · exact clean.rebased.join compose? one
    · exact ⟨clean.before, clean.base, .cons one clean.kept⟩

theorem AllChars.composed (all : AllChars rs) : AllChars (composed rs) := by
  cases rs with
  | nil => exact all
  | cons base rest =>
    obtain ⟨one, others⟩ := forall_mem_cons.mp all
    have folds (s : Composing) (clean : s.Clean) : (rest.foldl Composing.step s).Clean := by
      induction rest generalizing s with
      | nil => exact clean
      | cons r rest ih =>
        obtain ⟨next, others⟩ := forall_mem_cons.mp others
        exact ih (forall_mem_cons.mpr ⟨one, others⟩) others _ (clean.step next)
    have start : (Composing.start base).Clean := ⟨.nil, one, .nil⟩
    have clean := folds _ start
    exact (clean.kept.append (.cons clean.base clean.before)).reverse

theorem AllChars.normalizeSegment (all : AllChars rs) : AllChars (normalizeSegment rs) := by
  have decomposed : AllChars (rs.flatMap Normal.decomposeRune) :=
    .flatMap fun r member => .decomposeRune (all r member)
  exact .flatMap fun piece member =>
    (AllChars.nil.piecesFrom decomposed piece member).ordered.composed

end Normal

theorem allChars_runes (valid : isUtf8 t) : Normal.AllChars t.runes := by
  intro r member
  cases r with
  | char c => exact ⟨c, rfl⟩
  | stray b => cases all_eq_true.mp valid _ member

theorem isUtf8_normalize {t : Text} (valid : isUtf8 t) : isUtf8 t.normalize := by
  have uncut : t.cutShort = (t, []) := by rw [cutShort, if_pos valid]
  unfold normalize
  split
  · exact valid
  · simp only [uncut, append_nil]
    apply isUtf8_flatMap_bytes
    exact Normal.AllChars.flatMap fun segment member =>
      (Normal.AllChars.nil.segmentsFrom (allChars_runes valid) 0 segment member).normalizeSegment

@[simp] theorem normalize_nil : normalize [] = [] := rfl

end MiddleEnd.Text
