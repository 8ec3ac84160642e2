import MiddleEnd.Proofs.Json.RoundTrip

/-!
What a reader finds has valid texts and nests no deeper than there was room. A writer refuses
exactly the values that nest deeper.
-/

namespace MiddleEnd.Json

open Option

mutual
theorem tooDeep?_eq_none_iff (room : Nat) (j : Json) :
    tooDeep? room j = none ↔ j.nesting ≤ room := by
  cases j with
  | null | bool | number | string => simp [tooDeep?, nesting]
  | array items =>
    cases room with
    | zero => simp [tooDeep?, nesting]
    | succ room => rw [tooDeep?, nesting, itemsTooDeep?_eq_none_iff room items, Nat.succ_le_succ_iff]
  | object members =>
    cases room with
    | zero => simp [tooDeep?, nesting]
    | succ room =>
      rw [tooDeep?, nesting, membersTooDeep?_eq_none_iff room members, Nat.succ_le_succ_iff]

theorem itemsTooDeep?_eq_none_iff (room : Nat) (items : List Json) :
    itemsTooDeep? room items = none ↔ itemsNesting items ≤ room := by
  cases items with
  | nil => simp [itemsTooDeep?, itemsNesting]
  | cons item items =>
    rw [itemsTooDeep?, itemsNesting, or_eq_none_iff, tooDeep?_eq_none_iff room item,
      itemsTooDeep?_eq_none_iff room items, Nat.max_le]

theorem membersTooDeep?_eq_none_iff (room : Nat) (members : List (Text × Json)) :
    membersTooDeep? room members = none ↔ membersNesting members ≤ room := by
  cases members with
  | nil => simp [membersTooDeep?, membersNesting]
  | cons member members =>
    rw [membersTooDeep?, membersNesting, or_eq_none_iff,
      tooDeep?_eq_none_iff room member.2, membersTooDeep?_eq_none_iff room members, Nat.max_le]
end

mutual
/-- Every text that is a value is valid. -/
def HasValidTexts : Json → Prop
  | .string t => t.isUtf8
  | .array items => HaveValidTexts items
  | .object members => MembersHaveValidTexts members
  | _ => True
def HaveValidTexts : List Json → Prop
  | [] => True
  | item :: items => item.HasValidTexts ∧ HaveValidTexts items
def MembersHaveValidTexts : List (Text × Json) → Prop
  | [] => True
  | (_, value) :: members => value.HasValidTexts ∧ MembersHaveValidTexts members
end

theorem string?_valid (read : string? t = some (s, rest)) : s.isUtf8 := by
  obtain ⟨found, -, same⟩ := map_eq_some_iff.mp read
  cases same
  exact Text.isUtf8_ofChars _

theorem finds (fuel : Nat) :
    (∀ room t j rest, value? fuel room t = some (j, rest) →
      j.HasValidTexts ∧ j.nesting ≤ room) ∧
    (∀ room t items rest, items? fuel room t = some (items, rest) →
      HaveValidTexts items ∧ itemsNesting items ≤ room) ∧
    ∀ room t members rest, members? fuel room t = some (members, rest) →
      MembersHaveValidTexts members ∧ membersNesting members ≤ room := by
  induction fuel with
  | zero => simp [value?, items?, members?]
  | succ fuel ih =>
    obtain ⟨onValue, onItems, onMembers⟩ := ih
    refine ⟨?_, ?_, ?_⟩
    · intro room t j rest read
      rw [value?] at read
      split at read
      · cases read
      · obtain ⟨found, string, same⟩ := map_eq_some_iff.mp read
        cases same
        exact ⟨string?_valid string, Nat.zero_le _⟩
      · split at read
        · cases read
        · split at read
          · cases read
            exact ⟨trivial, Nat.succ_le_succ (Nat.zero_le _)⟩
          · obtain ⟨found, items, same⟩ := map_eq_some_iff.mp read
            cases same
            obtain ⟨valid, shallow⟩ := onItems _ _ _ _ items
            exact ⟨valid, Nat.succ_le_succ shallow⟩
      · split at read
        · cases read
        · split at read
          · cases read
            exact ⟨trivial, Nat.succ_le_succ (Nat.zero_le _)⟩
          · obtain ⟨found, members, same⟩ := map_eq_some_iff.mp read
            cases same
            obtain ⟨valid, shallow⟩ := onMembers _ _ _ _ members
            exact ⟨valid, Nat.succ_le_succ shallow⟩
      · cases read
        exact ⟨trivial, Nat.zero_le _⟩
      · cases read
        exact ⟨trivial, Nat.zero_le _⟩
      · cases read
        exact ⟨trivial, Nat.zero_le _⟩
      · obtain ⟨found, -, same⟩ := map_eq_some_iff.mp read
        cases same
        exact ⟨trivial, Nat.zero_le _⟩
    · intro room t items rest read
      rw [items?] at read
      obtain ⟨⟨item, behind⟩, first, read⟩ := bind_eq_some_iff.mp read
      obtain ⟨valid, shallow⟩ := onValue _ _ _ _ first
      dsimp only at read
      split at read
      · obtain ⟨⟨others, behind'⟩, more, same⟩ := bind_eq_some_iff.mp read
        cases same
        obtain ⟨valid', shallow'⟩ := onItems _ _ _ _ more
        exact ⟨⟨valid, valid'⟩, Nat.max_le.mpr ⟨shallow, shallow'⟩⟩
      · cases read
        exact ⟨⟨valid, trivial⟩, Nat.max_le.mpr ⟨shallow, Nat.zero_le _⟩⟩
      · cases read
    · intro room t members rest read
      rw [members?] at read
      split at read
      · obtain ⟨⟨key, behind⟩, -, read⟩ := bind_eq_some_iff.mp read
        dsimp only at read
        split at read
        · obtain ⟨⟨value, behind⟩, first, read⟩ := bind_eq_some_iff.mp read
          obtain ⟨valid, shallow⟩ := onValue _ _ _ _ first
          dsimp only at read
          split at read
          · obtain ⟨⟨others, behind'⟩, more, same⟩ := bind_eq_some_iff.mp read
            cases same
            obtain ⟨valid', shallow'⟩ := onMembers _ _ _ _ more
            exact ⟨⟨valid, valid'⟩, Nat.max_le.mpr ⟨shallow, shallow'⟩⟩
          · cases read
            exact ⟨⟨valid, trivial⟩, Nat.max_le.mpr ⟨shallow, Nat.zero_le _⟩⟩
          · cases read
        · cases read
      · cases read

theorem read?_valid (read : read? t = some j) : j.HasValidTexts ∧ j.nesting ≤ maxDepth := by
  obtain ⟨⟨found, rest⟩, front, same⟩ := map_eq_some_iff.mp read
  cases same
  exact (finds _).1 _ _ _ _ front

end MiddleEnd.Json
