import MiddleEnd.Text.Utf8

/-!
Reading text as UTF-8 loses no byte, and characters are read back from their bytes. So the valid
texts are those that spell characters.
-/

namespace MiddleEnd.Text

open List

variable {t : Text}

theorem toNat_val_ofNat (valid : n.isValidChar) : (Char.ofNat n).val.toNat = n := by
  rw [Char.ofNat, dif_pos valid]
  rfl

/-! Character by character: the bytes of what is read at the front are the bytes at the front. -/

section Leading

variable {a b c d : UInt8}

theorem isTail_iff : isTail b ↔ 128 ≤ b.toNat ∧ b.toNat ≤ 191 := by
  simp only [isTail, Bool.and_eq_true, decide_eq_true_eq, UInt8.le_iff_toNat_le]
  exact Iff.rfl

theorem two_iff : (0xC2 ≤ a && a ≤ 0xDF && isTail b) = true ↔
    0xC2 ≤ a.toNat ∧ a.toNat ≤ 0xDF ∧ 128 ≤ b.toNat ∧ b.toNat ≤ 191 := by
  simp only [Bool.and_eq_true, decide_eq_true_eq, UInt8.le_iff_toNat_le, isTail_iff,
    UInt8.reduceToNat, and_assoc]

theorem three_iff : (0xE0 ≤ a && a ≤ 0xEF && isTail b && isTail c && (a != 0xE0 || 0xA0 ≤ b)
      && (a != 0xED || b ≤ 0x9F)) = true ↔
    0xE0 ≤ a.toNat ∧ a.toNat ≤ 0xEF ∧ 128 ≤ b.toNat ∧ b.toNat ≤ 191 ∧ 128 ≤ c.toNat ∧
      c.toNat ≤ 191 ∧ (a.toNat ≠ 0xE0 ∨ 0xA0 ≤ b.toNat) ∧ (a.toNat ≠ 0xED ∨ b.toNat ≤ 0x9F) := by
  simp only [Bool.and_eq_true, Bool.or_eq_true, bne_iff_ne, ne_eq, ← UInt8.toNat_inj,
    decide_eq_true_eq, UInt8.le_iff_toNat_le, isTail_iff, UInt8.reduceToNat, and_assoc]

theorem four_iff : (0xF0 ≤ a && a ≤ 0xF4 && isTail b && isTail c && isTail d
      && (a != 0xF0 || 0x90 ≤ b) && (a != 0xF4 || b ≤ 0x8F)) = true ↔
    0xF0 ≤ a.toNat ∧ a.toNat ≤ 0xF4 ∧ 128 ≤ b.toNat ∧ b.toNat ≤ 191 ∧ 128 ≤ c.toNat ∧
      c.toNat ≤ 191 ∧ 128 ≤ d.toNat ∧ d.toNat ≤ 191 ∧ (a.toNat ≠ 0xF0 ∨ 0x90 ≤ b.toNat) ∧
      (a.toNat ≠ 0xF4 ∨ b.toNat ≤ 0x8F) := by
  simp only [Bool.and_eq_true, Bool.or_eq_true, bne_iff_ne, ne_eq, ← UInt8.toNat_inj,
    decide_eq_true_eq, UInt8.le_iff_toNat_le, isTail_iff, UInt8.reduceToNat, and_assoc]

theorem ofChar_one (first : a.toNat < 128) : ofChar (Char.ofNat a.toNat) = [a] := by
  rw [ofChar, String.utf8EncodeChar, toNat_val_ofNat (by simp only [Nat.isValidChar]; omega),
    if_pos (by omega), UInt8.ofNat_toNat]

theorem ofChar_two (range : (0xC2 ≤ a && a ≤ 0xDF && isTail b) = true) :
    ofChar (Char.ofNat (a.toNat % 32 * 64 + tailBits b)) = [a, b] := by
  rw [two_iff] at range
  rw [ofChar, String.utf8EncodeChar, tailBits,
    toNat_val_ofNat (by simp only [Nat.isValidChar]; omega), if_neg (by omega), if_pos (by omega)]
  simp only [List.cons.injEq, and_true, ← UInt8.toNat_inj, UInt8.toNat_ofNat']
  omega

theorem ofChar_three (range : (0xE0 ≤ a && a ≤ 0xEF && isTail b && isTail c &&
      (a != 0xE0 || 0xA0 ≤ b) && (a != 0xED || b ≤ 0x9F)) = true) :
    ofChar (Char.ofNat ((a.toNat % 16 * 64 + tailBits b) * 64 + tailBits c)) = [a, b, c] := by
  rw [three_iff] at range
  rw [ofChar, String.utf8EncodeChar, tailBits, tailBits,
    toNat_val_ofNat (by simp only [Nat.isValidChar]; omega), if_neg (by omega), if_neg (by omega),
    if_pos (by omega)]
  simp only [List.cons.injEq, and_true, ← UInt8.toNat_inj, UInt8.toNat_ofNat']
  omega

theorem ofChar_four (range : (0xF0 ≤ a && a ≤ 0xF4 && isTail b && isTail c && isTail d
      && (a != 0xF0 || 0x90 ≤ b) && (a != 0xF4 || b ≤ 0x8F)) = true) :
    ofChar (Char.ofNat
      (((a.toNat % 8 * 64 + tailBits b) * 64 + tailBits c) * 64 + tailBits d)) = [a, b, c, d] := by
  rw [four_iff] at range
  rw [ofChar, String.utf8EncodeChar, tailBits, tailBits, tailBits,
    toNat_val_ofNat (by simp only [Nat.isValidChar]; omega), if_neg (by omega), if_neg (by omega),
    if_neg (by omega)]
  simp only [List.cons.injEq, and_true, ← UInt8.toNat_inj, UInt8.toNat_ofNat']
  omega

end Leading

theorem leadingChar?_eq_some (read : leadingChar? t = some (c, width)) :
    ∃ rest, t = ofChar c ++ rest ∧ (ofChar c).length = width := by
  have reads {front rest : Text} (bytes : ofChar c = front) (whole : t = front ++ rest)
      (count : front.length = width) : ∃ rest, t = ofChar c ++ rest ∧ (ofChar c).length = width :=
    ⟨rest, by rw [bytes, whole], by rw [bytes, count]⟩
  unfold leadingChar? at read
  split at read
  · cases read
  · next a rest =>
    split at read
    · next first =>
      cases read
      exact reads (ofChar_one (UInt8.lt_iff_toNat_lt.mp first)) rfl rfl
    · split at read
      · next b rest =>
        split at read
        · next range =>
          cases read
          exact reads (ofChar_two range) rfl rfl
        · split at read
          · next c rest =>
            split at read
            · next range =>
              cases read
              exact reads (ofChar_three range) rfl rfl
            · split at read
              · next d rest =>
                split at read
                · next range =>
                  cases read
                  exact reads (ofChar_four range) rfl rfl
                · cases read
              · cases read
          · cases read
      · cases read

/-! And back: a character is read at the front of its bytes. -/

section Front

variable {a b c d : UInt8} {v : Nat} (rest : Text)

theorem not_small (high : 128 ≤ a.toNat) : ¬ a < 0x80 := by
  simpa only [UInt8.lt_iff_toNat_lt, UInt8.reduceToNat, Nat.not_lt] using high

theorem leadingChar?_one (one : a.toNat = v) (small : v < 128) :
    leadingChar? (a :: rest) = some (Char.ofNat v, 1) := by
  have inCode : a < 0x80 := UInt8.lt_iff_toNat_lt.mpr (one ▸ small)
  simp only [leadingChar?.eq_def, if_pos inCode, one]

theorem leadingChar?_two (one : a.toNat = v / 64 + 192) (two : b.toNat = v % 64 + 128)
    (low : 128 ≤ v) (high : v < 2048) :
    leadingChar? (a :: b :: rest) = some (Char.ofNat v, 2) := by
  have large := not_small (a := a) (by omega)
  have range := (@two_iff a b).mpr (by omega)
  have code : a.toNat % 32 * 64 + tailBits b = v := by
    rw [tailBits]
    omega
  simp only [leadingChar?.eq_def, if_neg large, if_pos range, code]

theorem leadingChar?_three (one : a.toNat = v / 4096 + 224) (two : b.toNat = v / 64 % 64 + 128)
    (three : c.toNat = v % 64 + 128) (low : 2048 ≤ v) (high : v < 65536)
    (noSurrogate : v < 0xD800 ∨ 0xDFFF < v) :
    leadingChar? (a :: b :: c :: rest) = some (Char.ofNat v, 3) := by
  have large := not_small (a := a) (by omega)
  have noTwo := mt (@two_iff a b).mp (by omega)
  have range := (@three_iff a b c).mpr (by omega)
  have code : (a.toNat % 16 * 64 + tailBits b) * 64 + tailBits c = v := by
    rw [tailBits, tailBits]
    omega
  simp only [leadingChar?.eq_def, if_neg large, if_neg noTwo, if_pos range, code]

theorem leadingChar?_four (one : a.toNat = v / 262144 + 240)
    (two : b.toNat = v / 4096 % 64 + 128) (three : c.toNat = v / 64 % 64 + 128)
    (four : d.toNat = v % 64 + 128) (low : 65536 ≤ v) (high : v < 0x110000) :
    leadingChar? (a :: b :: c :: d :: rest) = some (Char.ofNat v, 4) := by
  have large := not_small (a := a) (by omega)
  have noTwo := mt (@two_iff a b).mp (by omega)
  have noThree := mt (@three_iff a b c).mp (by omega)
  have range := (@four_iff a b c d).mpr (by omega)
  have code : ((a.toNat % 8 * 64 + tailBits b) * 64 + tailBits c) * 64 + tailBits d = v := by
    rw [tailBits, tailBits, tailBits]
    omega
  simp only [leadingChar?.eq_def, if_neg large, if_neg noTwo, if_neg noThree, if_pos range, code]

end Front

theorem leadingChar?_ofChar (c : Char) (rest : Text) :
    leadingChar? (ofChar c ++ rest) = some (c, (ofChar c).length) := by
  obtain ⟨v, code⟩ : ∃ v, c.val.toNat = v := ⟨_, rfl⟩
  have valid : v < 0xD800 ∨ 0xDFFF < v ∧ v < 0x110000 := code ▸ c.valid
  have back : Char.ofNat v = c := by
    rw [← code]
    exact Char.ofNat_toNat c
  rw [← back, ofChar, String.utf8EncodeChar, toNat_val_ofNat valid]
  by_cases one : v ≤ 127
  · rw [if_pos one]
    exact leadingChar?_one rest (by simp; omega) (by omega)
  rw [if_neg one]
  by_cases two : v ≤ 2047
  · rw [if_pos two]
    exact leadingChar?_two rest (by simp; omega) (by simp; omega) (by omega) (by omega)
  rw [if_neg two]
  by_cases three : v ≤ 65535
  · rw [if_pos three]
    exact leadingChar?_three rest (by simp; omega) (by simp; omega) (by simp; omega) (by omega)
      (by omega) (by omega)
  rw [if_neg three]
  exact leadingChar?_four rest (by simp; omega) (by simp; omega) (by simp; omega)
    (by simp; omega) (by omega) (by omega)

/-! Whole texts. -/

theorem ofChar_ne_nil (c : Char) : ofChar c ≠ [] := by
  intro empty
  have read := leadingChar?_ofChar c []
  rw [empty] at read
  cases read

theorem flatMap_bytes_runesAfter (skip : Nat) (t : Text) :
    (runesAfter skip t).flatMap Rune.bytes = t.drop skip := by
  induction t generalizing skip with
  | nil => simp [runesAfter]
  | cons b rest ih =>
    cases skip with
    | succ skip => rw [runesAfter, ih, drop_succ_cons]
    | zero =>
      rw [runesAfter]
      split
      · next c width read =>
        obtain ⟨rest', whole, rfl⟩ := leadingChar?_eq_some read
        cases front : ofChar c with
        | nil => exact absurd front (ofChar_ne_nil c)
        | cons first tail =>
          rw [front] at whole
          cases whole
          rw [flatMap_cons, ih, Rune.bytes, front]
          simp
      · rw [flatMap_cons, ih]
        rfl

theorem flatMap_bytes_runes (t : Text) : t.runes.flatMap Rune.bytes = t :=
  flatMap_bytes_runesAfter 0 t

theorem runesAfter_append (t rest : Text) : runesAfter t.length (t ++ rest) = runes rest := by
  induction t with
  | nil => rfl
  | cons b t ih => exact ih

theorem runes_ofChar_append (c : Char) (rest : Text) :
    runes (ofChar c ++ rest) = .char c :: runes rest := by
  have read := leadingChar?_ofChar c rest
  cases front : ofChar c with
  | nil => exact absurd front (ofChar_ne_nil c)
  | cons first tail =>
    rw [front, cons_append] at read
    rw [runes, cons_append, runesAfter, read]
    exact congrArg _ (runesAfter_append tail rest)

theorem runes_ofChars (cs : List Char) : runes (ofChars cs) = cs.map .char := by
  induction cs with
  | nil => rfl
  | cons c cs ih => rw [ofChars, flatMap_cons, runes_ofChar_append, map_cons, ← ih]; rfl

@[simp] theorem isUtf8_ofChars (cs : List Char) : isUtf8 (ofChars cs) := by
  rw [isUtf8, runes_ofChars, all_map]
  exact all_eq_true.mpr fun c _ => rfl

theorem ofChars_chars (valid : isUtf8 t) : ofChars t.chars = t := by
  rw [ofChars, chars, flatMap_map]
  refine Eq.trans ?_ (flatMap_bytes_runes t)
  rw [flatMap_def, flatMap_def]
  apply congrArg List.flatten
  apply map_congr_left
  intro r member
  cases r with
  | char c => rfl
  | stray b => cases all_eq_true.mp valid _ member

theorem isUtf8_iff : isUtf8 t ↔ ∃ cs, t = ofChars cs := by
  constructor
  · intro valid
    exact ⟨t.chars, (ofChars_chars valid).symm⟩
  · rintro ⟨cs, rfl⟩
    exact isUtf8_ofChars cs

theorem isUtf8_flatMap_bytes {rs : List Rune} (valid : ∀ r ∈ rs, ∃ c, r = .char c) :
    isUtf8 (rs.flatMap Rune.bytes) := by
  rw [isUtf8_iff]
  induction rs with
  | nil => exact ⟨[], rfl⟩
  | cons r rs ih =>
    rw [forall_mem_cons] at valid
    obtain ⟨⟨c, rfl⟩, others⟩ := valid
    obtain ⟨cs, spelled⟩ := ih others
    exact ⟨c :: cs, by rw [flatMap_cons, spelled]; rfl⟩

end MiddleEnd.Text
