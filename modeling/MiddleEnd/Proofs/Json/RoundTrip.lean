import MiddleEnd.Json.Reader
import MiddleEnd.Proofs.Text.Decimal
import MiddleEnd.Proofs.Text.Utf8
import Mathlib.Data.List.TakeDrop

/-!
What is written is read back, in either style.
-/

namespace MiddleEnd.Json

open List Text

/-! Strings. -/

variable {b : UInt8} {rest : Text}

theorem hex4?_hexDigits (small : n < 65536) (form : hexDigits 4 n = [a, b, c, d]) :
    hex4? a b c d = some n := by
  simp only [hexDigits, nil_append, cons_append, List.cons.injEq, and_true] at form
  obtain ⟨rfl, rfl, rfl, rfl⟩ := form
  simp only [hex4?, hexValue?_hexDigit _ (Nat.mod_lt _ (by decide : 0 < 16)),
    Option.bind_eq_bind, Option.bind_some, Option.some.injEq]
  omega

def prepend (bytes : Text) (read : Option (Text × Text)) : Option (Text × Text) :=
  read.map fun found => (bytes ++ found.1, found.2)

theorem readString_unit (small : n < 65536) (noHalf : n < 0xD800 ∨ 0xDFFF < n) (rest : Text) :
    readString none (92 :: 117 :: (hexDigits 4 n ++ rest)) =
      prepend (ofChar (Char.ofNat n)) (readString none rest) := by
  obtain ⟨a, b, c, d, form⟩ : ∃ a b c d, hexDigits 4 n = [a, b, c, d] := ⟨_, _, _, _, rfl⟩
  have noHigh : isHighSurrogate n = false := by
    simp only [isHighSurrogate, Bool.and_eq_false_iff, decide_eq_false_iff_not]
    omega
  have noSurrogate : (0xD800 ≤ n && n < 0xE000) = false := by
    simp only [Bool.and_eq_false_iff, decide_eq_false_iff_not]
    omega
  have step : unitStep none n = (ofChar (Char.ofNat n), none) := by
    simp only [unitStep, noHigh, unitBytes, noSurrogate, Bool.false_eq_true, if_false]
  rw [form, cons_append, cons_append, cons_append, cons_append, nil_append,
    readString, hex4?_hexDigits small form]
  simp only [Option.bind_eq_bind, Option.bind_some, step]
  cases readString none rest <;> rfl

theorem readString_simple (simple : simpleEscape? b = some escaped) (rest : Text) :
    readString none (92 :: b :: rest) = prepend [escaped] (readString none rest) := by
  rw [readString.eq_4, simple]
  · cases readString none rest <;> rfl
  · rintro _ _ _ _ _ rfl
    cases simple

theorem readString_byte (plain : 32 ≤ b) (noQuote : b ≠ 34) (noEscape : b ≠ 92) (rest : Text) :
    readString none (b :: rest) = prepend [b] (readString none rest) := by
  rw [readString.eq_5 _ _ _ noQuote (fun _ _ _ _ _ same => (noEscape same).elim)
    fun _ _ same => (noEscape same).elim]
  have passes : (decide (b < 32) || decide (b = 92)) = false := by
    simp only [Bool.or_eq_false_iff, decide_eq_false_iff_not, UInt8.not_lt]
    exact ⟨plain, noEscape⟩
  rw [passes]
  cases readString none rest <;> rfl

theorem prepend_prepend (s t : Text) (read : Option (Text × Text)) :
    prepend s (prepend t read) = prepend (s ++ t) read := by
  cases read with
  | none => rfl
  | some found => simp [prepend]

theorem readString_bytes (plain : ∀ b ∈ bytes, 32 ≤ b ∧ b ≠ 34 ∧ b ≠ 92) (rest : Text) :
    readString none (bytes ++ rest) = prepend bytes (readString none rest) := by
  induction bytes with
  | nil =>
    rw [nil_append, prepend]
    cases readString none rest <;> rfl
  | cons b bytes ih =>
    obtain ⟨⟨printed, noQuote, noEscape⟩, others⟩ := forall_mem_cons.mp plain
    rw [cons_append, readString_byte printed noQuote noEscape, ih others, prepend_prepend,
      singleton_append]

theorem ofChar_plain (noControl : 32 ≤ c.toNat) (noQuote : c.toNat ≠ 34) (noEscape : c.toNat ≠ 92) :
    ∀ b ∈ ofChar c, 32 ≤ b ∧ b ≠ 34 ∧ b ≠ 92 := by
  have plain {k : Nat} (small : k < 256) (noControl : 32 ≤ k) (noQuote : k ≠ 34)
      (noEscape : k ≠ 92) : 32 ≤ UInt8.ofNat k ∧ UInt8.ofNat k ≠ 34 ∧ UInt8.ofNat k ≠ 92 := by
    simp only [UInt8.le_iff_toNat_le, ne_eq, ← UInt8.toNat_inj, UInt8.toNat_ofNat',
      UInt8.reduceToNat]
    omega
  have upper {k : Nat} (low : 128 ≤ k) (small : k < 256) :
      32 ≤ UInt8.ofNat k ∧ UInt8.ofNat k ≠ 34 ∧ UInt8.ofNat k ≠ 92 :=
    plain small (by omega) (by omega) (by omega)
  have code : c.toNat = c.val.toNat := rfl
  rw [code] at noControl noQuote noEscape
  rw [ofChar, String.utf8EncodeChar]
  split
  · exact forall_mem_singleton.mpr (plain (by omega) noControl noQuote noEscape)
  · split
    · rw [forall_mem_cons, forall_mem_singleton]
      exact ⟨upper (by omega) (by omega), upper (by omega) (by omega)⟩
    · split
      · rw [forall_mem_cons, forall_mem_cons, forall_mem_singleton]
        exact ⟨upper (by omega) (by omega), upper (by omega) (by omega),
          upper (by omega) (by omega)⟩
      · rw [forall_mem_cons, forall_mem_cons, forall_mem_cons, forall_mem_singleton]
        exact ⟨upper (by omega) (by omega), upper (by omega) (by omega),
          upper (by omega) (by omega), upper (by omega) (by omega)⟩

theorem readString_char (c : Char) (rest : Text) :
    readString none (quotedRune (.char c) ++ rest) =
      prepend (ofChar c) (readString none rest) := by
  have simple {code : Nat} {b escaped : UInt8} (is : c.toNat = code)
      (escapes : simpleEscape? b = some escaped) (bytes : ofChar (Char.ofNat code) = [escaped]) :
      readString none ([92, b] ++ rest) = prepend (ofChar c) (readString none rest) := by
    have same : c = Char.ofNat code := by rw [← is, Char.ofNat_toNat]
    rw [same, bytes]
    exact readString_simple escapes rest
  rw [quotedRune, escape?]
  split
  iterate 7 next is => exact simple is rfl rfl
  · next noQuote noEscape _ _ _ _ _ =>
    split
    · next marked =>
      have small : c.toNat < 0xD800 := by
        simp only [Bool.or_eq_true, decide_eq_true_eq] at marked
        rcases marked with ((((control | rfl) | rfl) | rfl) | line) | paragraph
        · omega
        · decide
        · decide
        · decide
        · omega
        · omega
      have spelled := readString_unit (by omega) (.inl small) rest
      rw [Char.ofNat_toNat] at spelled
      exact spelled
    · next plain =>
      simp only [Bool.or_eq_true, decide_eq_true_eq, not_or] at plain
      exact readString_bytes (ofChar_plain (by omega) noQuote noEscape) rest

theorem readString_quoted (cs : List Char) (rest : Text) :
    readString none (cs.flatMap (fun c => quotedRune (.char c)) ++ 34 :: rest) =
      some (ofChars cs, rest) := by
  induction cs with
  | nil => rfl
  | cons c cs ih =>
    rw [flatMap_cons, append_assoc, readString_char, ih]
    rfl

theorem string?_quoted (valid : t.isUtf8) (rest : Text) :
    ∃ tail, quoted t = 34 :: tail ∧ string? (tail ++ rest) = some (t, rest) := by
  obtain ⟨cs, rfl⟩ := isUtf8_iff.mp valid
  refine ⟨cs.flatMap (fun c => quotedRune (.char c)) ++ [34], ?_, ?_⟩
  · rw [quoted, runes_ofChars, flatMap_map]
    rfl
  · rw [append_assoc, singleton_append, string?, readString_quoted, Option.map_some]
    exact congrArg (fun t => some (t, rest)) (ofChars_chars (isUtf8_ofChars cs))

/-! Numbers. -/

/-- A text behind a value that does not go on with it. -/
def stops : Text → Bool
  | [] => true
  | b :: _ => b == 44 || b == 10 || b == 93 || b == 125

theorem stops_iff : stops (b :: t) ↔ b = 44 ∨ b = 10 ∨ b = 93 ∨ b = 125 := by
  simp only [stops, Bool.or_eq_true, beq_iff_eq, or_assoc]

theorem digits_append (all : ∀ b ∈ ds, isDigit b) (stop : stops rest) :
    digits (ds ++ rest) = (ds, rest) := by
  change List.span isDigit (ds ++ rest) = (ds, rest)
  rw [span_eq_takeWhile_dropWhile, takeWhile_append_of_pos all, dropWhile_append_of_pos all]
  cases rest with
  | nil => rw [takeWhile_nil, dropWhile_nil, append_nil]
  | cons b rest =>
    have noDigit : isDigit b = false := by
      rcases stops_iff.mp stop with rfl | rfl | rfl | rfl <;> rfl
    rw [takeWhile_cons, dropWhile_cons, noDigit, if_neg Bool.false_ne_true,
      if_neg Bool.false_ne_true, append_nil]

theorem fraction?_stops (stop : stops rest) : fraction? rest = some ([], rest) := by
  cases rest with
  | nil => rfl
  | cons b rest =>
    rcases stops_iff.mp stop with rfl | rfl | rfl | rfl <;> rfl

theorem exponent?_stops (stop : stops rest) : exponent? rest = some ([], rest) := by
  cases rest with
  | nil => rfl
  | cons b rest =>
    rcases stops_iff.mp stop with rfl | rfl | rfl | rfl <;> rfl

theorem unsigned?_ofNat (n : Nat) (stop : stops rest) :
    unsigned? (.ofNat n ++ rest) = some (.ofNat n, rest) := by
  rcases ofNat_head n with zero | ⟨b, t, form, other⟩
  · rw [zero]
    rfl
  · have read : digits? (.ofNat n ++ rest) = some (.ofNat n, rest) := by
      rw [digits?, digits_append isDigit_of_mem_ofNat stop, form]
    rw [← read, form]
    exact unsigned?.eq_2 _ fun _ same => other (List.cons.inj same).1

theorem ofNat_cons (n : Nat) : ∃ b t, Text.ofNat n = b :: t ∧ Text.isDigit b := by
  cases form : Text.ofNat n with
  | nil => exact absurd form (Text.ofNat_ne_nil n)
  | cons b t =>
    exact ⟨b, t, rfl, Text.isDigit_of_mem_ofNat b (form ▸ mem_cons_self)⟩

theorem number?_ofInt (n : Int) (stop : stops rest) :
    number? (.ofInt n ++ rest) = some (.ofInt n, rest) := by
  cases n with
  | ofNat n =>
    have read := unsigned?_ofNat n stop
    obtain ⟨b, t, form, digit⟩ := ofNat_cons n
    have noSign : b ≠ 45 := by
      rintro rfl
      cases digit
    simp only [Text.ofInt, form, cons_append] at read ⊢
    unfold number?
    split
    next sign =>
    split at sign
    · next same => exact absurd (List.cons.inj same).1 noSign
    · cases sign
      simp only [read, fraction?_stops stop, exponent?_stops stop, Option.bind_eq_bind,
        Option.bind_some, append_nil, nil_append]
  | negSucc n =>
    simp only [number?, Text.ofInt, cons_append, unsigned?_ofNat (n + 1) stop, fraction?_stops stop,
      exponent?_stops stop, Option.bind_eq_bind, Option.bind_some, append_nil, nil_append]

/-! Values. -/

mutual
def nesting : Json → Nat
  | .array items => itemsNesting items + 1
  | .object members => membersNesting members + 1
  | _ => 0
def itemsNesting : List Json → Nat
  | [] => 0
  | item :: items => max item.nesting (itemsNesting items)
def membersNesting : List (Text × Json) → Nat
  | [] => 0
  | (_, value) :: members => max value.nesting (membersNesting members)
end

mutual
/-- Every number is an integer and every text is valid. -/
def IsPlain : Json → Prop
  | .null | .bool _ => True
  | .number literal => ∃ n : Int, literal = .ofInt n
  | .string t => t.isUtf8
  | .array items => ArePlain items
  | .object members => AreMembersPlain members
def ArePlain : List Json → Prop
  | [] => True
  | item :: items => item.IsPlain ∧ ArePlain items
def AreMembersPlain : List (Text × Json) → Prop
  | [] => True
  | (key, value) :: members => key.isUtf8 ∧ value.IsPlain ∧ AreMembersPlain members
end

theorem skipBlanks_append (all : ∀ b ∈ blanks, isBlank b) (t : Text) :
    skipBlanks (blanks ++ t) = skipBlanks t := by
  rw [skipBlanks, dropWhile_append_of_pos all, skipBlanks]

theorem isBlank_of_mem_lineBreak : ∀ b ∈ lineBreak indented depth, isBlank b := by
  intro b member
  unfold lineBreak at member
  split at member
  · rw [mem_cons, repeated, mem_flatten] at member
    rcases member with rfl | ⟨part, isPart, member⟩
    · rfl
    · rw [eq_of_mem_replicate isPart] at member
      exact all_eq_true.mp (rfl : (ofString "  ").all isBlank = true) b member
  · cases member

theorem skipBlanks_cons (noBlank : isBlank b = false) (t : Text) :
    skipBlanks (b :: t) = b :: t := by
  rw [skipBlanks, dropWhile_cons, noBlank]
  rfl

section Blanks

variable {blanks : Text} (all : ∀ b ∈ blanks, isBlank b) (fuel room : Nat) (t : Text)
include all

theorem value?_blanks : value? fuel room (blanks ++ t) = value? fuel room t := by
  cases fuel with
  | zero => rfl
  | succ fuel => rw [value?, skipBlanks_append all, value?]

theorem items?_blanks : items? fuel room (blanks ++ t) = items? fuel room t := by
  cases fuel with
  | zero => rfl
  | succ fuel => rw [items?, value?_blanks all, items?]

theorem members?_blanks : members? fuel room (blanks ++ t) = members? fuel room t := by
  cases fuel with
  | zero => rfl
  | succ fuel => rw [members?, skipBlanks_append all, members?]

end Blanks

section Values

variable {indented : Bool}

theorem write_array (depth : Nat) (item : Json) (items : List Json) :
    write indented depth (.array (item :: items)) =
      91 :: (lineBreak indented (depth + 1) ++ (write indented (depth + 1) item ++
        (writeItems indented (depth + 1) items ++ (lineBreak indented depth ++ [93])))) := by
  rw [write]
  simp only [append_assoc]
  rfl

theorem writeItems_cons (depth : Nat) (item : Json) (items : List Json) :
    writeItems indented depth (item :: items) =
      44 :: (lineBreak indented depth ++ (write indented depth item ++
        writeItems indented depth items)) := by
  rw [writeItems]
  simp only [append_assoc]
  rfl

theorem write_object (depth : Nat) (key : Text) (value : Json) (members : List (Text × Json)) :
    write indented depth (.object ((key, value) :: members)) =
      123 :: (lineBreak indented (depth + 1) ++ (writeKey indented key ++
        (write indented (depth + 1) value ++ (writeMembers indented (depth + 1) members ++
          (lineBreak indented depth ++ [125]))))) := by
  rw [write]
  simp only [append_assoc]
  rfl

theorem writeMembers_cons (depth : Nat) (key : Text) (value : Json)
    (members : List (Text × Json)) :
    writeMembers indented depth ((key, value) :: members) =
      44 :: (lineBreak indented depth ++ (writeKey indented key ++ (write indented depth value ++
        writeMembers indented depth members))) := by
  rw [writeMembers]
  simp only [append_assoc]
  rfl

theorem ofInt_cons (n : Int) : ∃ b t, ofInt n = b :: t ∧ (b = 45 ∨ isDigit b) := by
  cases n with
  | ofNat n =>
    obtain ⟨b, t, form, digit⟩ := ofNat_cons n
    exact ⟨b, t, form, .inr digit⟩
  | negSucc n => exact ⟨45, _, rfl, .inl rfl⟩

variable {b : UInt8}

theorem numeral_ne (numeral : b = 45 ∨ isDigit b) (other : c ≠ 45)
    (noDigit : isDigit c = false) : b ≠ c := by
  rintro rfl
  rcases numeral with rfl | digit
  · exact other rfl
  · rw [digit] at noDigit
    cases noDigit

theorem noBlank_of_numeral (numeral : b = 45 ∨ isDigit b) : isBlank b = false := by
  simp only [isBlank, Bool.or_eq_false_iff, decide_eq_false_iff_not]
  exact ⟨⟨⟨numeral_ne numeral (by decide) rfl, numeral_ne numeral (by decide) rfl⟩,
    numeral_ne numeral (by decide) rfl⟩, numeral_ne numeral (by decide) rfl⟩

theorem write_cons {j : Json} (plain : j.IsPlain) (depth : Nat) :
    ∃ b t, write indented depth j = b :: t ∧ isBlank b = false ∧ b ≠ 93 := by
  cases j with
  | null => exact ⟨110, _, by rw [write]; rfl, by decide, by decide⟩
  | bool b =>
    cases b
    · exact ⟨102, _, by rw [write]; rfl, by decide, by decide⟩
    · exact ⟨116, _, by rw [write]; rfl, by decide, by decide⟩
  | number literal =>
    obtain ⟨n, rfl⟩ := plain
    obtain ⟨b, t, form, numeral⟩ := ofInt_cons n
    exact ⟨b, t, by rw [write, form], noBlank_of_numeral numeral,
      numeral_ne numeral (by decide) rfl⟩
  | string t => exact ⟨34, _, by rw [write]; rfl, by decide, by decide⟩
  | array items =>
    cases items <;> exact ⟨91, _, by rw [write]; rfl, by decide, by decide⟩
  | object members =>
    cases members <;> exact ⟨123, _, by rw [write]; rfl, by decide, by decide⟩

theorem stops_lineBreak (depth : Nat) (closes : b = 93 ∨ b = 125) (rest : Text) :
    stops (lineBreak indented depth ++ b :: rest) := by
  cases indented with
  | false => rcases closes with rfl | rfl <;> rfl
  | true => rfl

theorem stops_writeItems (items : List Json) (depth outer : Nat) (rest : Text) :
    stops (writeItems indented depth items ++ (lineBreak indented outer ++ 93 :: rest)) := by
  cases items with
  | nil => rw [writeItems]; exact stops_lineBreak outer (.inl rfl) rest
  | cons item items => rw [writeItems_cons]; rfl

theorem stops_writeMembers (members : List (Text × Json)) (depth outer : Nat) (rest : Text) :
    stops (writeMembers indented depth members ++ (lineBreak indented outer ++ 125 :: rest)) := by
  cases members with
  | nil => rw [writeMembers]; exact stops_lineBreak outer (.inr rfl) rest
  | cons member members => rw [writeMembers_cons]; rfl

theorem value?_number (n : Int) (fuel room : Nat) (stop : stops rest) :
    value? (fuel + 1) room (.ofInt n ++ rest) = some (.number (.ofInt n), rest) := by
  have read := number?_ofInt n stop
  obtain ⟨b, t, form, numeral⟩ := ofInt_cons n
  rw [form, cons_append] at read ⊢
  have differs {c : UInt8} {u v : Text} (other : c ≠ 45) (noDigit : isDigit c = false) :
      b :: u ≠ c :: v :=
    fun same => numeral_ne numeral other noDigit (List.cons.inj same).1
  rw [value?, skipBlanks_cons (noBlank_of_numeral numeral)]
  split
  · next same => cases same
  iterate 6 next same => exact absurd same (differs (by decide) rfl)
  · rw [read, Option.map_some]

theorem value?_string (valid : t.isUtf8) (fuel room : Nat) (rest : Text) :
    value? (fuel + 1) room (quoted t ++ rest) = some (.string t, rest) := by
  obtain ⟨tail, form, read⟩ := string?_quoted valid rest
  rw [form, cons_append, value?, skipBlanks_cons (by decide)]
  simp only [read, Option.map_some]

section Steps

variable {fuel room outer : Nat} {t rest : Text}

variable {item value : Json} {key : Text}

theorem items?_last
    (read : value? fuel room t = some (item, lineBreak indented outer ++ 93 :: rest)) :
    items? (fuel + 1) room t = some ([item], rest) := by
  rw [items?, read]
  simp only [Option.bind_eq_bind, Option.bind_some, skipBlanks_append isBlank_of_mem_lineBreak,
    skipBlanks_cons (by decide : isBlank 93 = false)]

theorem items?_more (all : ∀ b ∈ blanks, isBlank b)
    (read : value? fuel room t = some (item, 44 :: (blanks ++ more)))
    (others : items? fuel room more = some (items, rest)) :
    items? (fuel + 1) room t = some (item :: items, rest) := by
  rw [items?, read]
  simp only [Option.bind_eq_bind, Option.bind_some, skipBlanks_cons (by decide : isBlank 44 = false),
    items?_blanks all, others]

theorem value?_array (plain : item.IsPlain) (depth : Nat)
    (read : items? fuel room (write indented (depth + 1) item ++ (writeItems indented (depth + 1)
      items ++ (lineBreak indented depth ++ 93 :: rest))) = some (item :: items, rest)) :
    value? (fuel + 1) (room + 1) (write indented depth (.array (item :: items)) ++ rest) =
      some (.array (item :: items), rest) := by
  obtain ⟨b, u, form, noBlank, noClose⟩ := @write_cons indented item plain (depth + 1)
  rw [write_array]
  simp only [cons_append, append_assoc, nil_append]
  rw [value?, skipBlanks_cons (by decide)]
  simp only [skipBlanks_append isBlank_of_mem_lineBreak]
  rw [form, cons_append] at read ⊢
  rw [skipBlanks_cons noBlank]
  split
  · next same => exact absurd (List.cons.inj same).1 noClose
  · rw [read, Option.map_some]

theorem writeKey_append {key : Text} (valid : key.isUtf8) (t : Text) :
    ∃ u blanks, writeKey indented key ++ t = 34 :: u ∧ (∀ b ∈ blanks, isBlank b) ∧
      string? u = some (key, 58 :: (blanks ++ t)) := by
  obtain ⟨blanks, all, colon⟩ : ∃ blanks, (∀ b ∈ blanks, isBlank b) ∧
      ofString (if indented then ": " else ":") = 58 :: blanks := by
    cases indented with
    | true => exact ⟨[32], forall_mem_singleton.mpr rfl, rfl⟩
    | false => exact ⟨[], forall_mem_nil _, rfl⟩
  obtain ⟨tail, form, string⟩ := string?_quoted valid (58 :: (blanks ++ t))
  refine ⟨_, blanks, ?_, all, string⟩
  rw [writeKey, append_assoc, form, colon]
  rfl

theorem members?_last (valid : key.isUtf8)
    (read : value? fuel room t = some (value, lineBreak indented outer ++ 125 :: rest)) :
    members? (fuel + 1) room (writeKey indented key ++ t) = some ([(key, value)], rest) := by
  obtain ⟨u, blanks, form, all, string⟩ := @writeKey_append indented key valid t
  rw [form, members?, skipBlanks_cons (by decide)]
  simp only [string, Option.bind_eq_bind, Option.bind_some,
    skipBlanks_cons (by decide : isBlank 58 = false), value?_blanks all, read,
    skipBlanks_append isBlank_of_mem_lineBreak, skipBlanks_cons (by decide : isBlank 125 = false)]

theorem members?_more (valid : key.isUtf8) (all : ∀ b ∈ blanks, isBlank b)
    (read : value? fuel room t = some (value, 44 :: (blanks ++ more)))
    (others : members? fuel room more = some (members, rest)) :
    members? (fuel + 1) room (writeKey indented key ++ t) =
      some ((key, value) :: members, rest) := by
  obtain ⟨u, blanks', form, all', string⟩ := @writeKey_append indented key valid t
  rw [form, members?, skipBlanks_cons (by decide)]
  simp only [string, Option.bind_eq_bind, Option.bind_some,
    skipBlanks_cons (by decide : isBlank 58 = false), value?_blanks all', read,
    skipBlanks_cons (by decide : isBlank 44 = false), members?_blanks all, others]

theorem value?_object (valid : key.isUtf8) (depth : Nat)
    (read : members? fuel room (writeKey indented key ++ (write indented (depth + 1) value ++
      (writeMembers indented (depth + 1) members ++ (lineBreak indented depth ++ 125 :: rest)))) =
      some ((key, value) :: members, rest)) :
    value? (fuel + 1) (room + 1) (write indented depth (.object ((key, value) :: members)) ++ rest) =
      some (.object ((key, value) :: members), rest) := by
  obtain ⟨u, blanks, form, -⟩ := @writeKey_append indented key valid
    (write indented (depth + 1) value ++ (writeMembers indented (depth + 1) members ++
      (lineBreak indented depth ++ 125 :: rest)))
  rw [form] at read
  rw [write_object]
  simp only [cons_append, append_assoc, nil_append, form]
  rw [value?, skipBlanks_cons (by decide)]
  simp only [skipBlanks_append isBlank_of_mem_lineBreak,
    skipBlanks_cons (by decide : isBlank 34 = false)]
  split
  · next same => exact absurd (List.cons.inj same).1 (by decide)
  · rw [read, Option.map_some]

end Steps

theorem write_length_pos {j : Json} (plain : j.IsPlain) (depth : Nat) :
    0 < (write indented depth j).length := by
  obtain ⟨b, t, form, -⟩ := @write_cons indented j plain depth
  rw [form, length_cons]
  omega

/-- This fuel is enough to read back a value, whatever stops it. -/
def ReadsValue (indented : Bool) (fuel : Nat) : Prop :=
  ∀ (j : Json) depth room rest, j.IsPlain → j.nesting ≤ room → stops rest →
    2 * (write indented depth j).length ≤ fuel + 1 →
    value? fuel room (write indented depth j ++ rest) = some (j, rest)

/-- This fuel is enough for the items of an array, up to its end. -/
def ReadsItems (indented : Bool) (fuel : Nat) : Prop :=
  ∀ item items depth outer room rest, IsPlain item → ArePlain items →
    max item.nesting (itemsNesting items) ≤ room →
    2 * ((write indented depth item).length + (writeItems indented depth items).length) ≤ fuel →
    items? fuel room (write indented depth item ++ (writeItems indented depth items ++
      (lineBreak indented outer ++ 93 :: rest))) = some (item :: items, rest)

def ReadsMembers (indented : Bool) (fuel : Nat) : Prop :=
  ∀ key value members depth outer room rest, isUtf8 key → IsPlain value →
    AreMembersPlain members → max value.nesting (membersNesting members) ≤ room →
    2 * ((writeKey indented key).length + (write indented depth value).length +
      (writeMembers indented depth members).length) ≤ fuel →
    members? fuel room (writeKey indented key ++ (write indented depth value ++
      (writeMembers indented depth members ++ (lineBreak indented outer ++ 125 :: rest)))) =
      some ((key, value) :: members, rest)

theorem readsValue_succ (onItems : ReadsItems indented fuel)
    (onMembers : ReadsMembers indented fuel) : ReadsValue indented (fuel + 1) := by
  intro j depth room rest plain shallow stop bound
  cases j with
  | null =>
    rw [write]
    rfl
  | bool b =>
    rw [write]
    cases b <;> rfl
  | number literal =>
    obtain ⟨n, rfl⟩ := plain
    rw [write]
    exact value?_number n fuel room stop
  | string t =>
    rw [write]
    exact value?_string plain fuel room rest
  | array items =>
    rw [nesting] at shallow
    obtain ⟨room, rfl⟩ : ∃ inner, room = inner + 1 := ⟨room - 1, by omega⟩
    cases items with
    | nil =>
      rw [write]
      rfl
    | cons item items =>
      obtain ⟨ofItem, ofItems⟩ := plain
      rw [itemsNesting] at shallow
      rw [write_array] at bound
      simp only [length_cons, length_append] at bound
      exact value?_array ofItem depth
        (onItems item items _ depth room rest ofItem ofItems (by omega) (by omega))
  | object members =>
    rw [nesting] at shallow
    obtain ⟨room, rfl⟩ : ∃ inner, room = inner + 1 := ⟨room - 1, by omega⟩
    cases members with
    | nil =>
      rw [write]
      rfl
    | cons member members =>
      obtain ⟨ofKey, ofValue, ofMembers⟩ := plain
      rw [membersNesting] at shallow
      rw [write_object] at bound
      simp only [length_cons, length_append] at bound
      exact value?_object ofKey depth (onMembers member.1 member.2 members _ depth room rest
        ofKey ofValue ofMembers (by omega) (by omega))

theorem readsItems_succ (onValue : ReadsValue indented fuel) (onItems : ReadsItems indented fuel) :
    ReadsItems indented (fuel + 1) := by
  intro item items depth outer room rest plain others shallow bound
  have read := onValue item depth room _ plain (by omega)
    (@stops_writeItems indented items depth outer rest) (by omega)
  cases items with
  | nil =>
    rw [writeItems] at read ⊢
    exact items?_last read
  | cons next items =>
    obtain ⟨ofNext, ofItems⟩ := others
    rw [writeItems_cons] at read bound ⊢
    simp only [cons_append, append_assoc] at read ⊢
    simp only [length_cons, length_append] at bound
    rw [itemsNesting] at shallow
    exact items?_more isBlank_of_mem_lineBreak read
      (onItems next items depth outer room rest ofNext ofItems (by omega) (by omega))

theorem readsMembers_succ (onValue : ReadsValue indented fuel)
    (onMembers : ReadsMembers indented fuel) : ReadsMembers indented (fuel + 1) := by
  intro key value members depth outer room rest valid plain others shallow bound
  have read := onValue value depth room _ plain (by omega)
    (@stops_writeMembers indented members depth outer rest) (by omega)
  cases members with
  | nil =>
    rw [writeMembers] at read ⊢
    exact members?_last valid read
  | cons next members =>
    obtain ⟨ofKey, ofNext, ofMembers⟩ := others
    rw [writeMembers_cons] at read bound ⊢
    simp only [cons_append, append_assoc] at read ⊢
    simp only [length_cons, length_append] at bound
    rw [membersNesting] at shallow
    exact members?_more valid isBlank_of_mem_lineBreak read
      (onMembers next.1 next.2 members depth outer room rest ofKey ofNext ofMembers
        (by omega) (by omega))

theorem reads (fuel : Nat) :
    ReadsValue indented fuel ∧ ReadsItems indented fuel ∧ ReadsMembers indented fuel := by
  induction fuel with
  | zero =>
    -- Nothing is written in no bytes.
    refine ⟨?_, ?_, ?_⟩
    · intro j depth _ _ plain _ _ bound
      have := @write_length_pos indented j plain depth
      omega
    · intro item _ depth _ _ _ plain _ _ bound
      have := @write_length_pos indented item plain depth
      omega
    · intro _ value _ depth _ _ _ _ plain _ _ bound
      have := @write_length_pos indented value plain depth
      omega
  | succ fuel ih =>
    obtain ⟨onValue, onItems, onMembers⟩ := ih
    exact ⟨readsValue_succ onItems onMembers, readsItems_succ onValue onItems,
      readsMembers_succ onValue onMembers⟩

end Values

theorem read?_pretty (plain : j.IsPlain) (shallow : j.nesting ≤ maxDepth) :
    read? j.pretty = some j := by
  have length : (write true 0 j).length ≤ j.pretty.length := by
    rw [pretty, length_append]
    exact Nat.le_add_right _ _
  have whole := (@reads true (2 * j.pretty.length + 2)).1 j 0 maxDepth [newline] plain shallow
    rfl (by omega)
  rw [read?]
  exact congrArg (Option.map Prod.fst) whole

end MiddleEnd.Json
