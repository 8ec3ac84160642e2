import MiddleEnd.MessagePack.Reader

/-!
Lengths that were read. A length takes four bytes at most, so no text and no list that is read is
longer than four bytes can tell.
-/

namespace MiddleEnd.MessagePack

variable {t : Text}

mutual
/-- Whether four bytes tell the length of every text and every list. -/
def Value.isRoomy : Value → Bool
  | .str t | .bin t => t.length < 0x100000000
  | .array items _ => items.length < 0x100000000 && areRoomy items
  | .map pairs => arePairsRoomy pairs
  | _ => true
def areRoomy : List Value → Bool
  | [] => true
  | item :: items => item.isRoomy && areRoomy items
def arePairsRoomy : List (Value × Value) → Bool
  | [] => true
  | (key, value) :: pairs => key.isRoomy && value.isRoomy && arePairsRoomy pairs
end

theorem ofBigEndian_lt (t : Text) : ofBigEndian t < Nat.pow 256 t.length := by
  suffices bound : ∀ (t : Text) (n k : Nat), n < Nat.pow 256 k →
      t.foldl (fun n b => 256 * n + b.toNat) n < Nat.pow 256 (k + t.length) by
    have start := bound t 0 0 (by decide)
    rwa [Nat.zero_add] at start
  intro t
  induction t with
  | nil => exact fun n k small => small
  | cons b t ih =>
    intro n k small
    have next : 256 * n + b.toNat < Nat.pow 256 (k + 1) := by
      have byte := b.toNat_lt
      simp only [Nat.pow_eq, Nat.pow_succ] at small ⊢
      omega
    have rest := ih _ _ next
    rwa [Nat.add_right_comm] at rest

theorem number?_lt (read : number? width t = some (n, rest)) : n < Nat.pow 256 width := by
  obtain ⟨⟨bytes, others⟩, taken, equation⟩ := Option.map_eq_some_iff.mp read
  cases equation
  unfold takeBytes? at taken
  dsimp only at taken
  split at taken
  · next length =>
    cases taken
    have bound := ofBigEndian_lt (t.take width)
    rwa [length] at bound
  · cases taken

theorem ofBytes_roomy {make : Text → Value} (t : Text)
    (made : ∀ bytes, bytes.length = count → (make bytes).isRoomy) :
    (ofBytes count make t).1.isRoomy := by
  unfold ofBytes takeBytes?
  dsimp only
  by_cases length : (t.take count).length = count
  · rw [if_pos length]
    exact made _ length
  · rw [if_neg length]
    rfl

theorem ofCounted_roomy (narrow : width ≤ 4) {make : Text → Value} (t : Text)
    (made : ∀ bytes, bytes.length < 0x100000000 → (make bytes).isRoomy) :
    (ofCounted width make t).1.isRoomy := by
  unfold ofCounted
  split
  · next count rest read =>
    have bound : Nat.pow 256 width ≤ Nat.pow 256 4 := Nat.pow_le_pow_right (by decide) narrow
    refine ofBytes_roomy rest fun bytes length => made bytes ?_
    rw [length]
    exact Nat.lt_of_lt_of_le (number?_lt read) bound
  · rfl

theorem ofExt_roomy (width extra : Nat) (t : Text) : (ofExt width extra t).1.isRoomy := by
  unfold ofExt
  split
  · exact ofBytes_roomy _ fun _ _ => rfl
  · rfl

theorem scalar?_roomy {read : Read Value} (found : scalar? code t = some read) :
    read.1.isRoomy := by
  have text (bytes : Text) (short : bytes.length < 0x100000000) : (Value.str bytes).isRoomy :=
    decide_eq_true short
  have binary (bytes : Text) (short : bytes.length < 0x100000000) : (Value.bin bytes).isRoomy :=
    decide_eq_true short
  unfold scalar? at found
  split at found
  · cases found
    rfl
  split at found
  · cases found
    rfl
  split at found
  · obtain rfl := Option.some.inj found
    refine ofBytes_roomy t fun bytes length => text bytes ?_
    rw [length]
    exact Nat.lt_of_le_of_lt (Nat.sub_le ..) (Nat.lt_trans code.toNat_lt (by decide))
  split at found
  all_goals cases found
  all_goals first
    | rfl
    | exact ofCounted_roomy (by decide) t text
    | exact ofCounted_roomy (by decide) t binary
    | exact ofExt_roomy _ _ t
    | exact ofBytes_roomy t fun _ _ => rfl

theorem parts?_lt (found : parts? code t = some (pairs, count, rest)) : count < 0x100000000 := by
  have small (base : Nat) : code.toNat - base < 0x100000000 :=
    Nat.lt_of_le_of_lt (Nat.sub_le ..) (Nat.lt_trans code.toNat_lt (by decide))
  unfold parts? at found
  split at found
  · rw [← (Prod.mk.inj (Prod.mk.inj (Option.some.inj found)).2).1]
    exact small _
  split at found
  · rw [← (Prod.mk.inj (Prod.mk.inj (Option.some.inj found)).2).1]
    exact small _
  split at found
  all_goals first
    | cases found
    | obtain ⟨⟨n, others⟩, read, equation⟩ := Option.map_eq_some_iff.mp found
      cases equation
      exact Nat.lt_of_lt_of_le (number?_lt read) (by decide)

theorem reads_roomy (fuel : Nat) :
    (∀ t, (readValue fuel t).1.isRoomy) ∧
      (∀ count t, areRoomy (readItems fuel count t).1 ∧
        (readItems fuel count t).1.length ≤ count) ∧
      ∀ count t, arePairsRoomy (readPairs fuel count t).1 := by
  induction fuel with
  | zero =>
    refine ⟨fun t => ?_, fun count t => ?_, fun count t => ?_⟩
    · rw [readValue]
      rfl
    · cases count with
      | zero =>
        rw [readItems]
        exact ⟨rfl, Nat.le_refl _⟩
      | succ count =>
        rw [readItems]
        exact ⟨rfl, Nat.succ_le_succ (Nat.zero_le count)⟩
    · cases count <;> rw [readPairs] <;> rfl
  | succ fuel ih =>
    obtain ⟨value, items, pairs⟩ := ih
    refine ⟨fun t => ?_, fun count t => ?_, fun count t => ?_⟩
    · cases t with
      | nil =>
        rw [readValue]
        rfl
      | cons code t =>
        rw [readValue]
        split
        · next found => exact scalar?_roomy found
        split
        · rfl
        · next count t found => exact pairs count t
        · next count t found =>
          obtain ⟨roomy, few⟩ := items count t
          exact Bool.and_eq_true_iff.mpr
            ⟨decide_eq_true (Nat.lt_of_le_of_lt few (parts?_lt found)), roomy⟩
    · cases count with
      | zero =>
        rw [readItems]
        exact ⟨rfl, Nat.le_refl _⟩
      | succ count =>
        have here := value t
        rw [readItems]
        split
        · next item read =>
          rw [read] at here
          exact ⟨Bool.and_eq_true_iff.mpr ⟨here, rfl⟩, Nat.succ_le_succ (Nat.zero_le count)⟩
        · next item t read =>
          rw [read] at here
          obtain ⟨roomy, few⟩ := items count t
          exact ⟨Bool.and_eq_true_iff.mpr ⟨here, roomy⟩, Nat.succ_le_succ few⟩
    · cases count with
      | zero =>
        rw [readPairs]
        rfl
      | succ count =>
        have here := value t
        rw [readPairs]
        split
        · next key read =>
          rw [read] at here
          simp only [arePairsRoomy, here, Value.isRoomy, Bool.and_self]
        · next key t read =>
          rw [read] at here
          have there := value t
          split
          · next value read =>
            rw [read] at there
            simp only [arePairsRoomy, here, there, Bool.and_self]
          · next value t read =>
            rw [read] at there
            simp only [arePairsRoomy, here, there, pairs count t, Bool.and_self]

theorem read_roomy (t : Text) : (read t).isRoomy :=
  (reads_roomy _).1 t

end MiddleEnd.MessagePack
