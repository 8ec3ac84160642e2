import MiddleEnd.Files.Tree
import MiddleEnd.Proofs.Control

/-!
Where paths lead, whether or not they can be followed, so that what happens to a file tree can be
told place by place.
-/

namespace MiddleEnd

open List

variable {place : List Text} {node : FileNode}

namespace Text

theorem split_ne_nil (separator : UInt8) (t : Text) : t.split separator ≠ [] := by
  cases t with
  | nil => simp [split]
  | cons b rest =>
    rw [split]
    split
    · simp
    · split <;> simp

theorem split_append (separator : UInt8) (s t : Text) :
    split separator (s ++ separator :: t) = split separator s ++ split separator t := by
  induction s with
  | nil => simp [split]
  | cons b s ih =>
    rw [cons_append, split, split, ih]
    by_cases same : b = separator
    · simp [same]
    · simp only [if_neg same]
      cases pieces : split separator s with
      | nil => exact absurd pieces (split_ne_nil separator s)
      | cons piece others => rfl

theorem split_whole (whole : separator ∉ t) : split separator t = [t] := by
  induction t with
  | nil => rfl
  | cons b rest ih =>
    rw [mem_cons, not_or] at whole
    rw [split, if_neg (Ne.symm whole.1), ih whole.2]

theorem join_append_singleton (separator : Text) (last : Text) (some : parts ≠ []) :
    join separator (parts ++ [last]) = join separator parts ++ separator ++ last := by
  induction parts with
  | nil => exact absurd rfl some
  | cons part rest ih =>
    cases rest with
    | nil => simp [join]
    | cons next rest =>
      have step : join separator (next :: (rest ++ [last])) =
          join separator (next :: rest) ++ separator ++ last := ih (by simp)
      have longer : ∀ others, join separator (part :: next :: others) =
          part ++ separator ++ join separator (next :: others) := fun others => by simp [join]
      rw [cons_append, cons_append, longer, longer, step]
      simp only [append_assoc]

end Text

namespace Path

/-- A name that stands for itself in a path. -/
structure Proper (name : Text) : Prop where
  whole : slash ∉ name
  some : name ≠ []
  notHere : name ≠ Text.ofString "."
  notAbove : name ≠ dots

variable {name : Text}

theorem Proper.parts_append (proper : Proper name) (dir : Text) :
    parts (dir ++ slash :: name) = parts dir ++ [name] := by
  have kept : (!name.isEmpty && name != Text.ofString ".") = true := by
    simp [proper.some, proper.notHere]
  rw [parts, Text.split_append, filter_append, Text.split_whole proper.whole]
  simp only [filter_cons, kept, if_true, filter_nil]
  rfl

theorem Proper.reduce_append (proper : Proper name) (rooted : Bool) (before : List Text) :
    reduce rooted (before ++ [name]) = reduce rooted before ++ [name] := by
  simp [reduce, foldl_append, proper.notAbove]

theorem Proper.join_dir (proper : Proper name) {dir : Text} (present : dir ≠ []) :
    join dir name = name ∨ ∃ lead, join dir name = lead ++ slash :: name := by
  have absolute : isAbsolute (dir ++ slash :: name) = isAbsolute dir := by
    cases dir with
    | nil => exact absurd rfl present
    | cons b rest => rfl
  have cleaned : join dir name = clean (dir ++ slash :: name) := by
    simp only [join, isEmpty_eq_false_iff.mpr present, isEmpty_eq_false_iff.mpr proper.some]
  rw [cleaned, clean, absolute, proper.parts_append, proper.reduce_append]
  generalize reduce (isAbsolute dir) (parts dir) = before
  by_cases first : before = []
  · rw [first, nil_append]
    have text : Text.join [slash] [name] = name := rfl
    simp only [text]
    split
    · exact .inr ⟨[], rfl⟩
    · rw [if_neg (by simp [proper.some])]
      exact .inl rfl
  · have text : Text.join [slash] (before ++ [name]) =
        Text.join [slash] before ++ slash :: name := by
      rw [Text.join_append_singleton _ _ first, append_assoc]
      rfl
    simp only [text]
    split
    · exact .inr ⟨slash :: Text.join [slash] before, rfl⟩
    · rw [if_neg (by simp)]
      exact .inr ⟨_, rfl⟩

end Path

namespace FileTree

/-- Where a part of a path leads from a place. -/
def move (place : List Text) (part : Text) : List Text :=
  if part.isEmpty || part == Text.ofString "." then place
  else if part == Path.dots then place.dropLast
  else place ++ [part]

/-- Where a path leads, if it can be followed. -/
def destination (workDir path : Text) : List Text :=
  (path.split Path.slash).foldl move (if Path.isAbsolute path then [] else Path.parts workDir)

variable {t t' : FileTree} {path : Text}

theorem follow_eq_ok (followed : t.follow place parts = .ok place') :
    place' = parts.foldl move place := by
  induction parts generalizing place with
  | nil =>
    cases followed
    rfl
  | cons part parts ih =>
    rw [follow] at followed
    rw [foldl_cons, move]
    split at followed
    · cases followed
    · cases followed
    · split at followed
      · next same => exact ih followed ▸ by rw [if_pos same]
      · next other =>
        rw [if_neg other]
        split at followed
        · next up => exact ih followed ▸ by rw [if_pos up]
        · next down =>
          rw [if_neg down]
          split at followed
          · cases followed
          · exact ih followed

theorem locate_eq_ok (located : t.locate path = .ok place) :
    place = destination t.workDir path := by
  unfold locate at located
  split at located
  · cases located
  · split at located
    · cases located
    · split at located
      · cases located
      · exact follow_eq_ok located

theorem find_eq_ok (found : t.find path = .ok node) :
    t.node? (destination t.workDir path) = some node := by
  obtain ⟨place, located, found⟩ := bind_eq_ok.mp found
  rw [← locate_eq_ok located]
  split at found
  · next there =>
    cases found
    exact there
  · cases found

theorem lookup_filter {nodes : List (List Text × FileNode)} (keep : List Text → Bool)
    (found : (nodes.filter fun entry => keep entry.1).lookup place = some node) :
    nodes.lookup place = some node := by
  induction nodes with
  | nil => cases found
  | cons entry rest ih =>
    rw [filter_cons] at found
    rw [lookup_cons]
    split at found
    · rw [lookup_cons] at found
      split at found
      · exact found
      · exact ih found
    · next dropped =>
      have other : (place == entry.1) = false := by
        rw [beq_eq_false_iff_ne]
        rintro rfl
        obtain ⟨before, behind, split, -⟩ := lookup_eq_some_iff.mp found
        have member : (entry.1, node) ∈ rest.filter fun entry => keep entry.1 := by simp [split]
        exact dropped (mem_filter.mp member).2
      rw [other]
      exact ih found

/-- All files of one tree are files of another. -/
structure FilesWithin (t' t : FileTree) : Prop where
  workDir : t'.workDir = t.workDir
  files : ∀ place content, t'.node? place = some (.file content) →
    t.node? place = some (.file content)

theorem FilesWithin.refl (t : FileTree) : t.FilesWithin t :=
  ⟨rfl, fun _ _ found => found⟩

theorem FilesWithin.trans {t₃ : FileTree} (first : t₂.FilesWithin t₁) (second : t₃.FilesWithin t₂) :
    t₃.FilesWithin t₁ :=
  ⟨second.workDir.trans first.workDir, fun place content found =>
    first.files place content (second.files place content found)⟩

theorem node?_set (found : (t.set place node).node? other = some (.file content)) :
    other = place ∧ node = .file content ∨ t.node? other = some (.file content) := by
  simp only [node?, set] at found ⊢
  split at found
  · cases found
  · next proper =>
    rw [if_neg proper]
    rw [lookup_cons] at found
    split at found
    · next same =>
      cases found
      exact .inl ⟨eq_of_beq same, rfl⟩
    · exact .inr (lookup_filter (fun p => p != place) found)

theorem makeDir_filesWithin (made : t.makeDir path = .ok t') : t'.FilesWithin t := by
  unfold makeDir at made
  split at made
  · cases made
  · split at made
    · cases made
    · cases made
      refine ⟨rfl, fun place content found => ?_⟩
      obtain ⟨-, absurd⟩ | found := node?_set found
      · cases absurd
      · exact found

theorem makeDirsWithin_filesWithin {fuel : Nat} (made : makeDirsWithin fuel t path = .ok t') :
    t'.FilesWithin t := by
  induction fuel generalizing t t' path with
  | zero =>
    cases made
    exact .refl t
  | succ fuel ih =>
    rw [makeDirsWithin] at made
    split at made
    · cases made
      exact .refl t
    · cases made
    · -- Either branch goes on from a tree above the last part, in which that part is made.
      simp only at made
      split at made
      all_goals obtain ⟨above, reached, made⟩ := bind_eq_ok.mp made
      · cases reached
        split at made
        · next made' =>
          cases made
          exact makeDir_filesWithin made'
        · split at made <;> cases made
          exact .refl t
      · split at made
        · next made' =>
          cases made
          exact (ih reached).trans (makeDir_filesWithin made')
        · split at made <;> cases made
          exact ih reached

theorem makeDirs_filesWithin (made : t.makeDirs path = .ok t') : t'.FilesWithin t :=
  makeDirsWithin_filesWithin made

theorem removeAll_filesWithin (t : FileTree) (path : Text) : (t.removeAll path).FilesWithin t := by
  unfold removeAll
  split
  · exact .refl t
  · next top located =>
    refine ⟨rfl, fun place content found => ?_⟩
    simp only [node?] at found ⊢
    split at found
    · cases found
    · next proper =>
      rw [if_neg proper]
      exact lookup_filter (fun p => !top.isPrefixOf p) found

theorem write_files (written : t.write path content = .ok t') :
    t'.workDir = t.workDir ∧ ∀ place content', t'.node? place = some (.file content') →
      place = destination t.workDir path ∧ content' = content ∨
        t.node? place = some (.file content') := by
  unfold write at written
  split at written
  · cases written
  · next place located =>
    split at written
    · cases written
    · next plain =>
      cases written
      refine ⟨rfl, fun other content' found => ?_⟩
      have whole : trimmed path = path := by
        by_cases whole : trimmed path = path
        · exact whole
        · exact absurd (by simp [whole]) plain
      rw [whole] at located
      obtain ⟨same, isFile⟩ | found := node?_set found
      · cases isFile
        exact .inl ⟨same.trans (locate_eq_ok located), rfl⟩
      · exact .inr found

theorem move_proper (proper : Path.Proper name) (place : List Text) :
    move place name = place ++ [name] := by
  simp [move, proper.some, proper.notHere, proper.notAbove]

theorem destination_join (proper : Path.Proper name) (present : dir ≠ []) (workDir : Text) :
    ∃ above, destination workDir (Path.join dir name) = above ++ [name] := by
  unfold destination
  obtain alone | ⟨lead, behind⟩ := proper.join_dir present
  · rw [alone, Text.split_whole proper.whole, foldl_cons, move_proper proper, foldl_nil]
    exact ⟨_, rfl⟩
  · rw [behind, Text.split_append, Text.split_whole proper.whole, foldl_append,
      foldl_cons, move_proper proper, foldl_nil]
    exact ⟨_, rfl⟩

end FileTree

end MiddleEnd
