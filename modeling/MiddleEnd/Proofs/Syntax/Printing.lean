import MiddleEnd.Proofs.Text.Decimal
import MiddleEnd.Syntax.Printer

/-!
The text of an expression tells the expression, up to the numbers of its nodes.
-/

namespace MiddleEnd

open List Text

variable {s t rest rest' : Text} {e e' : Expr}

namespace Text

def isWordByte (b : UInt8) : Bool := isUpper b || isLower b || isDigit b || b == 95

/-- Letters, digits and underscores, with no digit in front. -/
structure IsWord (t : Text) : Prop where
  bytes : ∀ b ∈ t, isWordByte b
  start : ∃ b ∈ t.head?, ¬ isDigit b

/-- A word that is no truth value. -/
structure IsName (t : Text) : Prop extends IsWord t where
  notBool : ∀ value, t ≠ ofBool value

theorem isWord_ofBool (value : Bool) : (ofBool value).IsWord := by
  cases value with
  | false => exact ⟨by decide +kernel, ⟨102, rfl, by decide⟩⟩
  | true => exact ⟨by decide +kernel, ⟨116, rfl, by decide⟩⟩

theorem ofBool_injective (same : ofBool v = ofBool w) : v = w := by
  revert v w
  decide +kernel

/-- Word bytes and the sign of a number. -/
def isAtomByte (b : UInt8) : Bool := isWordByte b || b == 45

theorem IsWord.atom (word : t.IsWord) : ∀ b ∈ t, isAtomByte b :=
  fun b member => Bool.or_eq_true_iff.mpr (.inl (word.bytes b member))

theorem isWordByte_of_isDigit (digit : isDigit b) : isWordByte b := by
  simp [isWordByte, digit]

theorem atom_ofInt (i : Int) : ∀ b ∈ ofInt i, isAtomByte b := by
  have digits (n : Nat) : ∀ b ∈ ofNat n, isAtomByte b := fun b member =>
    Bool.or_eq_true_iff.mpr (.inl (isWordByte_of_isDigit (isDigit_of_mem_ofNat b member)))
  cases i with
  | ofNat n => exact digits n
  | negSucc n => exact forall_mem_cons.mpr ⟨rfl, digits (n + 1)⟩

theorem ofInt_head (i : Int) : ∃ b ∈ (ofInt i).head?, isDigit b ∨ b = 45 := by
  cases i with
  | ofNat n =>
    obtain ⟨b, t, form⟩ := exists_cons_of_ne_nil (ofNat_ne_nil n)
    have digit := isDigit_of_mem_ofNat b (form ▸ mem_cons_self)
    exact ⟨b, by rw [ofInt, form]; rfl, .inl digit⟩
  | negSucc n => exact ⟨45, rfl, .inr rfl⟩

theorem IsWord.ne_ofInt (word : t.IsWord) (i : Int) : t ≠ ofInt i := by
  rintro rfl
  obtain ⟨b, first, start⟩ := word.start
  obtain ⟨c, first', number⟩ := ofInt_head i
  cases Option.some.inj (first.symm.trans first')
  rcases number with digit | rfl
  · exact start digit
  · exact absurd (word.bytes 45 (mem_of_mem_head? first)) (by decide)

theorem ofInt_injective {i j : Int} (same : ofInt i = ofInt j) : i = j := by
  have signless (n m : Nat) : ofNat n ≠ 45 :: ofNat m := by
    intro same
    exact absurd (isDigit_of_mem_ofNat 45 (same ▸ mem_cons_self)) (by decide)
  cases i with
  | ofNat n =>
    cases j with
    | ofNat m => rw [ofNat_injective same]
    | negSucc m => exact absurd same (signless n (m + 1))
  | negSucc n =>
    cases j with
    | ofNat m => exact absurd same.symm (signless m (n + 1))
    | negSucc m => rw [Nat.succ.inj (ofNat_injective (List.cons.inj same).2)]

/-- A text that ends where the bytes of a kind end can be told from what follows. -/
theorem append_inj_of_stop {kind : UInt8 → Bool} (inside : ∀ b ∈ s, kind b)
    (inside' : ∀ b ∈ t, kind b) (stop : ∀ b ∈ rest.head?, ¬ kind b)
    (stop' : ∀ b ∈ rest'.head?, ¬ kind b) (same : s ++ rest = t ++ rest') :
    s = t ∧ rest = rest' := by
  have front {s rest : Text} (inside : ∀ b ∈ s, kind b) (stop : ∀ b ∈ rest.head?, ¬ kind b) :
      (s ++ rest).takeWhile kind = s := by
    rw [takeWhile_append_of_pos inside]
    cases rest with
    | nil => rw [takeWhile_nil, append_nil]
    | cons b rest => rw [takeWhile_cons_of_neg (stop b rfl), append_nil]
  have equal : s = t := by rw [← front inside stop, same, front inside' stop']
  subst equal
  exact ⟨rfl, append_cancel_left same⟩

end Text

theorem BinaryOp.name_injective :
    ∀ op ∈ BinaryOp.known, ∀ op' ∈ BinaryOp.known, op.name = op'.name → op = op' := by
  decide +kernel

theorem BinaryOp.blankless : ∀ op ∈ BinaryOp.known, ∀ b ∈ op.name, (b != 32) = true := by
  decide +kernel

namespace Expr

/-- Kinds and operators are known, no operand is missing, and every name is one. -/
def Printable : Expr → Prop
  | .absent | .unknown _ _ => False
  | .int _ _ | .bool _ _ => True
  | .ident _ name => name.IsName
  | .unary _ op operand => op = .not ∧ operand.Printable
  | .binary _ op left right => op ∈ BinaryOp.known ∧ left.Printable ∧ right.Printable

/-- The expression without what its nodes carry. -/
def bare : Expr → Expr
  | .absent => .absent
  | .int _ value => .int default value
  | .bool _ value => .bool default value
  | .ident _ name => .ident default name
  | .unary _ op operand => .unary default op operand.bare
  | .binary _ op left right => .binary default op left.bare right.bare
  | .unknown _ kind => .unknown default kind

def isAtom : Expr → Bool
  | .int _ _ | .bool _ _ | .ident _ _ => true
  | _ => false

theorem print_binary (node : Node) (op : BinaryOp) (left right : Expr) :
    (binary node op left right).print =
      40 :: (left.print ++ 32 :: (op.name ++ 32 :: (right.print ++ [41]))) := by
  have texts : ofString "(" = [40] ∧ ofString " " = [32] ∧ ofString ")" = [41] :=
    ⟨rfl, rfl, rfl⟩
  rw [print, texts.1, texts.2.1, texts.2.2]
  simp only [append_assoc, cons_append, nil_append]

theorem print_atom (atom : e.isAtom) (printable : e.Printable) :
    e.print ≠ [] ∧ ∀ b ∈ e.print, isAtomByte b := by
  have word {t : Text} (word : t.IsWord) : t ≠ [] ∧ ∀ b ∈ t, isAtomByte b := by
    refine ⟨?_, word.atom⟩
    rintro rfl
    obtain ⟨b, first, -⟩ := word.start
    cases first
  cases e with
  | int node value =>
    refine ⟨?_, atom_ofInt value.toInt⟩
    intro empty
    obtain ⟨b, first, -⟩ := ofInt_head value.toInt
    cases (congrArg List.head? empty).symm.trans first
  | bool node value => exact word (isWord_ofBool value)
  | ident node name => exact word printable.toIsWord
  | _ => cases atom

theorem atom_of_print_eq (atom : e.isAtom) (atom' : e'.isAtom) (printable : e.Printable)
    (printable' : e'.Printable) (same : e.print = e'.print) : e.bare = e'.bare := by
  cases e with
  | int node value =>
    cases e' with
    | int node' value' => rw [bare, bare, Int32.toInt_inj.mp (ofInt_injective same)]
    | bool node' value' => exact absurd same.symm ((isWord_ofBool value').ne_ofInt _)
    | ident node' name => exact absurd same.symm (printable'.ne_ofInt _)
    | _ => cases atom'
  | bool node value =>
    cases e' with
    | int node' value' => exact absurd same ((isWord_ofBool value).ne_ofInt _)
    | bool node' value' => rw [bare, bare, ofBool_injective same]
    | ident node' name => exact absurd same.symm (printable'.notBool value)
    | _ => cases atom'
  | ident node name =>
    cases e' with
    | int node' value' => exact absurd same (printable.ne_ofInt _)
    | bool node' value' => exact absurd same (printable.notBool value')
    | ident node' name' => exact congrArg (ident default) same
    | _ => cases atom'
  | _ => cases atom

/-- A text that cannot go on the text of an atom. -/
def Ends (rest : Text) : Prop := ∀ b ∈ rest.head?, ¬ isAtomByte b

theorem atom_of_print_append (atom : e.isAtom) (printable : e.Printable)
    (printable' : e'.Printable) (ends : Ends rest) (ends' : Ends rest')
    (same : e.print ++ rest = e'.print ++ rest') : e.bare = e'.bare ∧ rest = rest' := by
  obtain ⟨nonempty, bytes⟩ := print_atom atom printable
  obtain ⟨b, t, form⟩ := exists_cons_of_ne_nil nonempty
  have first : isAtomByte b := bytes b (form ▸ mem_cons_self)
  by_cases atom' : e'.isAtom
  · obtain ⟨texts, rests⟩ :=
      append_inj_of_stop bytes (print_atom atom' printable').2 ends ends' same
    exact ⟨atom_of_print_eq atom atom' printable printable' texts, rests⟩
  · rw [form] at same
    cases e' with
    | absent | unknown node kind => exact printable'.elim
    | unary node op operand =>
      cases (List.cons.inj same).1
      cases first
    | binary node op left right =>
      rw [print_binary] at same
      cases (List.cons.inj same).1
      cases first
    | _ => exact absurd rfl atom'

/-- The induction is over all texts that may follow: what follows a left operand begins with a blank
and what follows a right one with a bracket, which no atom contains. -/
theorem bare_of_print_append (printable : e.Printable) (printable' : e'.Printable)
    (ends : Ends rest) (ends' : Ends rest') (same : e.print ++ rest = e'.print ++ rest') :
    e.bare = e'.bare ∧ rest = rest' := by
  have ends_of {b : UInt8} {t : Text} (other : isAtomByte b = false) : Ends (b :: t) := by
    rintro c first
    cases first
    rw [other]
    exact Bool.false_ne_true
  induction e generalizing e' rest rest' with
  | absent | unknown node kind => exact printable.elim
  | int node value | bool node value | ident node name =>
    exact atom_of_print_append rfl printable printable' ends ends' same
  | unary node op operand ih =>
    cases e' with
    | absent | unknown node' kind => exact printable'.elim
    | int node' value | bool node' value | ident node' name =>
      obtain ⟨bares, rests⟩ := atom_of_print_append rfl printable' printable ends' ends same.symm
      exact ⟨bares.symm, rests.symm⟩
    | unary node' op' operand' =>
      obtain ⟨rfl, printable⟩ := printable
      obtain ⟨rfl, printable'⟩ := printable'
      obtain ⟨bares, rests⟩ := ih printable printable' ends ends' (List.cons.inj same).2
      exact ⟨by rw [bare, bare, bares], rests⟩
    | binary node' op' left right =>
      rw [print_binary] at same
      cases (List.cons.inj same).1
  | binary node op left right leftIH rightIH =>
    cases e' with
    | absent | unknown node' kind => exact printable'.elim
    | int node' value | bool node' value | ident node' name =>
      obtain ⟨bares, rests⟩ := atom_of_print_append rfl printable' printable ends' ends same.symm
      exact ⟨bares.symm, rests.symm⟩
    | unary node' op' operand =>
      rw [print_binary] at same
      cases (List.cons.inj same).1
    | binary node' op' left' right' =>
      obtain ⟨known, onLeft, onRight⟩ := printable
      obtain ⟨known', onLeft', onRight'⟩ := printable'
      simp only [print_binary, cons_append, append_assoc, List.cons.injEq, true_and]
        at same
      obtain ⟨lefts, same⟩ := leftIH onLeft onLeft' (ends_of rfl) (ends_of rfl) same
      obtain ⟨ops, same⟩ := append_inj_of_stop (BinaryOp.blankless op known)
        (BinaryOp.blankless op' known') (by simp) (by simp) (List.cons.inj same).2
      obtain ⟨rights, same⟩ :=
        rightIH onRight onRight' (ends_of rfl) (ends_of rfl) (List.cons.inj same).2
      rw [bare, bare, lefts, rights, BinaryOp.name_injective op known op' known' ops]
      exact ⟨rfl, (List.cons.inj same).2⟩

/-- Printable expressions with one text are equal up to what their nodes carry. -/
theorem print_unambiguous (printable : e.Printable) (printable' : e'.Printable)
    (same : e.print = e'.print) : e.bare = e'.bare := by
  have ends : Ends [] := by
    intro b first
    cases first
  refine (bare_of_print_append printable printable' ends ends ?_).1
  rw [same]

/-- The text is `(!x_1 - -1)`, with node numbers from a given one on. -/
def difference (id : NodeId) : Expr :=
  .binary ⟨id, []⟩ .sub (.unary ⟨id + 1, []⟩ .not (.ident ⟨id + 2, []⟩ "x_1")) (.int ⟨id + 3, []⟩ (-1))

theorem difference_unambiguous :
    (difference 1).Printable ∧ (difference 9).Printable ∧
    (difference 1).print = (difference 9).print ∧ (difference 1).bare = (difference 9).bare := by
  have name : IsName "x_1" :=
    ⟨⟨by decide +kernel, 120, rfl, by decide⟩, by decide +kernel⟩
  have printable (id : NodeId) : (difference id).Printable := ⟨by decide, ⟨rfl, name⟩, trivial⟩
  have same : (difference 1).print = (difference 9).print := rfl
  exact ⟨printable 1, printable 9, same, print_unambiguous (printable 1) (printable 9) same⟩

end Expr

end MiddleEnd
