import MiddleEnd.Text.Basic

/-!
Reading text as UTF-8. A byte that starts no well-formed character stands for itself, so every
text has exactly one reading and no byte is lost.
-/

namespace MiddleEnd

/-- One step of a reading: a character, or a byte that starts none. -/
inductive Rune where
  | char (c : Char)
  | stray (b : UInt8)
  deriving DecidableEq, Repr, Inhabited

namespace Text

def isTail (b : UInt8) : Bool := 0x80 ≤ b && b ≤ 0xBF

def tailBits (b : UInt8) : Nat := b.toNat % 64

def leadingChar? : Text → Option (Char × Nat)
  | [] => none
  | a :: rest =>
    if a < 0x80 then some (Char.ofNat a.toNat, 1)
    else match rest with
      | b :: rest =>
        if 0xC2 ≤ a && a ≤ 0xDF && isTail b then
          some (Char.ofNat (a.toNat % 32 * 64 + tailBits b), 2)
        else match rest with
          | c :: rest =>
            if 0xE0 ≤ a && a ≤ 0xEF && isTail b && isTail c
                && (a != 0xE0 || 0xA0 ≤ b) && (a != 0xED || b ≤ 0x9F) then
              some (Char.ofNat ((a.toNat % 16 * 64 + tailBits b) * 64 + tailBits c), 3)
            else match rest with
              | d :: _ =>
                if 0xF0 ≤ a && a ≤ 0xF4 && isTail b && isTail c && isTail d
                    && (a != 0xF0 || 0x90 ≤ b) && (a != 0xF4 || b ≤ 0x8F) then
                  some (Char.ofNat
                    (((a.toNat % 8 * 64 + tailBits b) * 64 + tailBits c) * 64 + tailBits d), 4)
                else none
              | [] => none
          | [] => none
      | [] => none

/-- Reads on after `skip` bytes that belong to the character before. -/
def runesAfter : (skip : Nat) → Text → List Rune
  | _, [] => []
  | skip + 1, _ :: rest => runesAfter skip rest
  | 0, b :: rest =>
    match leadingChar? (b :: rest) with
    | some (c, width) => .char c :: runesAfter (width - 1) rest
    | none => .stray b :: runesAfter 0 rest

def runes (t : Text) : List Rune :=
  runesAfter 0 t

def ofChar (c : Char) : Text :=
  String.utf8EncodeChar c

def isUtf8 (t : Text) : Bool :=
  (runes t).all fun
    | .char _ => true
    | .stray _ => false

def chars (t : Text) : List Char :=
  (runes t).map fun
    | .char c => c
    | .stray _ => Char.ofNat 0xFFFD

def ofChars (cs : List Char) : Text :=
  cs.flatMap ofChar

end Text

def Rune.bytes : Rune → Text
  | .char c => Text.ofChar c
  | .stray b => [b]

def Rune.code : Rune → Nat
  | .char c => c.toNat
  | .stray _ => 0xFFFD

end MiddleEnd
