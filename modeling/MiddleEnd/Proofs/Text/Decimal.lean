import MiddleEnd.Text.Basic

/-!
Decimal and hexadecimal digits are read back.
-/

namespace MiddleEnd.Text

open List

variable {k : Nat}

theorem toNat_digit (small : k < 10) : (UInt8.ofNat (48 + k)).toNat = 48 + k := by
  rw [UInt8.toNat_ofNat']
  omega

theorem isDigit_digit (small : k < 10) : isDigit (UInt8.ofNat (48 + k)) := by
  simp only [isDigit, Bool.and_eq_true, decide_eq_true_eq, UInt8.le_iff_toNat_le,
    toNat_digit small, UInt8.reduceToNat]
  omega

theorem ofNat_induction {motive : Nat → Text → Prop}
    (one : ∀ n < 10, motive n [UInt8.ofNat (48 + n)])
    (more : ∀ n, 10 ≤ n → motive (n / 10) (ofNat (n / 10)) →
      motive n (ofNat (n / 10) ++ [UInt8.ofNat (48 + n % 10)])) (n : Nat) :
    motive n (ofNat n) := by
  induction n using Nat.strongRecOn with
  | _ n ih =>
    rw [ofNat]
    split
    · next small => exact one n small
    · next large => exact more n (by omega) (ih (n / 10) (by omega))

theorem ofNat_ne_nil (n : Nat) : ofNat n ≠ [] := by
  refine ofNat_induction (motive := fun _ t => t ≠ []) ?_ ?_ n
  · intro n small
    simp
  · intro n large ih
    simp

theorem isDigit_of_mem_ofNat : ∀ b ∈ ofNat n, isDigit b := by
  refine ofNat_induction (motive := fun _ t => ∀ b ∈ t, isDigit b) ?_ ?_ n
  · intro n small
    exact forall_mem_singleton.mpr (isDigit_digit small)
  · intro n large ih
    exact forall_mem_append.mpr
      ⟨ih, forall_mem_singleton.mpr (isDigit_digit (by omega))⟩

theorem ofNat_head (n : Nat) : ofNat n = [48] ∨ ∃ b t, ofNat n = b :: t ∧ b ≠ 48 := by
  have nonzero {k : Nat} (small : k < 10) (positive : 0 < k) : UInt8.ofNat (48 + k) ≠ 48 := by
    intro same
    have := congrArg UInt8.toNat same
    rw [toNat_digit small] at this
    simp only [UInt8.reduceToNat] at this
    omega
  have heads : (n = 0 ∧ ofNat n = [48]) ∨ 0 < n ∧ ∃ b t, ofNat n = b :: t ∧ b ≠ 48 := by
    refine ofNat_induction
      (motive := fun n u => (n = 0 ∧ u = [48]) ∨ 0 < n ∧ ∃ b t, u = b :: t ∧ b ≠ 48) ?_ ?_ n
    · intro n small
      by_cases zero : n = 0
      · subst zero
        exact .inl ⟨rfl, rfl⟩
      · exact .inr ⟨by omega, _, [], rfl, nonzero small (by omega)⟩
    · rintro n large (⟨zero, -⟩ | ⟨-, b, t, form, other⟩)
      · omega
      · exact .inr ⟨by omega, b, _, by rw [form, cons_append], other⟩
  rcases heads with ⟨-, zero⟩ | ⟨-, other⟩
  · exact .inl zero
  · exact .inr other

def addDigit (n? : Option Nat) (b : UInt8) : Option Nat :=
  n?.bind fun n => if isDigit b then some (10 * n + (b.toNat - 48)) else none

theorem toNat?_eq_foldl (present : t ≠ []) : toNat? t = t.foldl addDigit (some 0) := by
  cases t with
  | nil => exact absurd rfl present
  | cons b t => rfl

theorem addDigit_digit (small : k < 10) :
    addDigit (some n) (UInt8.ofNat (48 + k)) = some (10 * n + k) := by
  rw [addDigit, Option.bind_some, if_pos (isDigit_digit small), toNat_digit small,
    Nat.add_sub_cancel_left]

theorem toNat?_ofNat (n : Nat) : toNat? (ofNat n) = some n := by
  rw [toNat?_eq_foldl (ofNat_ne_nil n)]
  refine ofNat_induction (motive := fun n t => t.foldl addDigit (some 0) = some n) ?_ ?_ n
  · intro n small
    rw [foldl_cons, foldl_nil, addDigit_digit small, Nat.mul_zero, Nat.zero_add]
  · intro n large ih
    rw [foldl_append, ih, foldl_cons, foldl_nil, addDigit_digit (by omega)]
    exact congrArg some (by omega)

theorem ofNat_injective (same : ofNat m = ofNat n) : m = n := by
  have read := toNat?_ofNat m
  rw [same, toNat?_ofNat, Option.some.injEq] at read
  exact read.symm

theorem hexValue?_hexDigit : ∀ k < 16, hexValue? (hexDigit k) = some k := by decide

end MiddleEnd.Text
