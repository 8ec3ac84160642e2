import MiddleEnd.Text.Utf8
import MiddleEnd.Toml.Moment

/-!
Reading the text of a document. Every function takes characters from the front and gives back the
rest; nothing means that the text is not well formed.
-/

namespace MiddleEnd.Toml

def isBlank (c : Char) : Bool := c == ' ' || c == '\t'

def isNewline (c : Char) : Bool := c == '\n' || c == '\r'

def isBareKeyChar (c : Char) : Bool := c.isAlphanum || c == '_' || c == '-'

def blanks (cs : List Char) : List Char := cs.dropWhile isBlank

def quoteMark : Char := '\x22'

def apostrophe : Char := '\x27'

def gap : (comment : Bool) → List Char → List Char
  | _, [] => []
  | true, c :: cs => if isNewline c then gap false cs else gap true cs
  | false, c :: cs =>
    if isBlank c || isNewline c then gap false cs else if c = '#' then gap true cs else c :: cs

def endOfLine (cs : List Char) : Option (List Char) :=
  match blanks cs with
  | [] => some []
  | '#' :: cs => some (cs.dropWhile fun c => !isNewline c)
  | c :: cs => if isNewline c then some cs else none

/-! Strings. -/

def numberedChar? (count : Nat) (cs : List Char) : Option (Char × List Char) :=
  let front := cs.take count
  let n := ofDigits 16 front
  if front.length = count && front.all (isDigitOf 16) && n.isValidChar then
    some (Char.ofNat n, cs.drop count)
  else none

def escaped? : List Char → Option (Char × List Char)
  | 'b' :: cs => some ('\x08', cs)
  | 't' :: cs => some ('\t', cs)
  | 'n' :: cs => some ('\n', cs)
  | 'f' :: cs => some ('\x0c', cs)
  | 'r' :: cs => some ('\r', cs)
  | 'u' :: cs => numberedChar? 4 cs
  | 'U' :: cs => numberedChar? 8 cs
  | c :: cs => if c = quoteMark || c = '\\' then some (c, cs) else none
  | [] => none

/-- A backslash at the end of a line takes away all blanks up to the next character. -/
def joinedLine? (cs : List Char) : Option (List Char) :=
  let (space, rest) := cs.span fun c => isBlank c || isNewline c
  if space.contains '\n' then some rest else none

/-- In a string of several lines, three marks close it, and up to two more may stand before
these. -/
def closingRun (mark : Char) (cs : List Char) : Nat :=
  (cs.takeWhile (· == mark)).length

/-- Behind a backslash that stands for itself a closing run may have one mark more. -/
def basicString : (fuel : Nat) → (long spared : Bool) → (found : List Char) → List Char →
    Option (List Char × List Char)
  | 0, _, _, _, _ => none
  | _, _, _, _, [] => none
  | fuel + 1, long, spared, found, c :: cs =>
    if c = quoteMark then
      if !long then some (found.reverse, cs)
      else
        let run := closingRun quoteMark (c :: cs)
        let rest := (c :: cs).drop run
        if run < 3 then basicString fuel long false (List.replicate run c ++ found) rest
        else if run ≤ 5 || spared && run = 6 then
          some (found.reverse ++ List.replicate (run - 3) c, rest)
        else none
    else if c = '\\' then
      match (if long then joinedLine? cs else none), escaped? cs with
      | some rest, _ => basicString fuel long false found rest
      | none, some (d, rest) => basicString fuel long (cs.head? == some '\\') (d :: found) rest
      | none, none => none
    else if isNewline c && !long then none
    else basicString fuel long false (c :: found) cs

def literalString : (fuel : Nat) → (long : Bool) → (found : List Char) → List Char →
    Option (List Char × List Char)
  | 0, _, _, _ => none
  | _, _, _, [] => none
  | fuel + 1, long, found, c :: cs =>
    if c = apostrophe then
      if !long then some (found.reverse, cs)
      else
        let run := closingRun apostrophe (c :: cs)
        let rest := (c :: cs).drop run
        if run < 3 then literalString fuel long (List.replicate run c ++ found) rest
        else if run ≤ 5 then some (found.reverse ++ List.replicate (run - 3) c, rest)
        else none
    else if isNewline c && !long then none
    else literalString fuel long (c :: found) cs

/-- A line end right behind the opening marks is no part of the string. -/
def afterOpening : List Char → List Char
  | '\n' :: cs => cs
  | '\r' :: '\n' :: cs => cs
  | cs => cs

def string? (cs : List Char) (mayBeLong : Bool) : Option (Text × List Char) :=
  let (mark, rest) := (cs.head?.getD quoteMark, cs.tail)
  let long := mayBeLong && rest.take 2 == [mark, mark]
  let body := if long then afterOpening (rest.drop 2) else rest
  let read :=
    if mark = quoteMark then basicString (body.length + 1) long false [] body
    else literalString (body.length + 1) long [] body
  read.map fun (found, rest) => (Text.ofChars found, rest)

def isMark (c : Char) : Bool := c == quoteMark || c == apostrophe

/-! Keys. -/

def keyPart? (cs : List Char) : Option (Text × List Char) :=
  match cs with
  | [] => none
  | c :: _ =>
    if isMark c then string? cs false
    else
      let (part, rest) := cs.span isBareKeyChar
      if part.isEmpty then none else some (Text.ofChars part, rest)

def key? : (fuel : Nat) → List Char → Option (Key × List Char)
  | 0, _ => none
  | fuel + 1, cs => do
    let (part, rest) ← keyPart? (blanks cs)
    match blanks rest with
    | '.' :: rest =>
      let (others, rest) ← key? fuel rest
      some (part :: others, rest)
    | rest => some ([part], rest)

/-! Values. -/

def isMomentChar (c : Char) : Bool :=
  c.isDigit || ['-', ':', 'T', 't', ' ', '.', 'Z', 'z', '+'].contains c

def isFloatChar (c : Char) : Bool :=
  c.isDigit || ['_', '.', '-', '+', 'e', 'E'].contains c

def isDecimalChar (c : Char) : Bool :=
  c.isDigit || c == '_'

def trimEnd (cs : List Char) : List Char :=
  (cs.reverse.dropWhile (· == ' ')).reverse

/-- A number that starts with a sign and digits; its end tells what it is. -/
def decimalNumber? (sign cs : List Char) : Option (Term × List Char) :=
  let (digits, rest) := cs.span isDecimalChar
  if (rest.head?.map isFloatBreak).getD false then
    let (float, rest) := cs.span isFloatChar
    if isFloat (sign ++ float) then some (.float, rest) else none
  else (decimal? (sign ++ digits)).map fun n => (.integer n, rest)

def basedNumber? (base : Nat) (cs : List Char) : Option (Term × List Char) :=
  let (digits, rest) := cs.span fun c => isDigitOf base c || c == '_'
  if (cs.head?.map (isDigitOf base)).getD false then
    (based? base digits).map fun n => (.integer n, rest)
  else none

/-- A zero with no digit behind it is a number, whatever follows. -/
def numberOrMoment? (cs : List Char) : Option (Term × List Char) :=
  match cs with
  | '0' :: '-' :: _ | '0' :: ':' :: _ => none
  | '0' :: 'x' :: rest => basedNumber? 16 rest
  | '0' :: 'o' :: rest => basedNumber? 8 rest
  | '0' :: 'b' :: rest => basedNumber? 2 rest
  | cs =>
    match (cs.dropWhile Char.isDigit).head? with
    | some '-' | some ':' =>
      let (token, rest) := cs.span isMomentChar
      if isMoment (trimEnd token) then some (.moment, rest) else none
    | _ => decimalNumber? [] cs

def afterWord? : List Char → List Char → Option (List Char)
  | [], cs => some cs
  | _ :: _, [] => none
  | w :: ws, c :: cs => if w = c then afterWord? ws cs else none

def specialFloat? (cs : List Char) : Option (Term × List Char) :=
  match afterWord? ['i', 'n', 'f'] cs, afterWord? ['n', 'a', 'n'] cs with
  | some rest, _ | none, some rest => some (.float, rest)
  | none, none => none

def scalar? (cs : List Char) : Option (Term × List Char) :=
  match afterWord? ['t', 'r', 'u', 'e'] cs, afterWord? ['f', 'a', 'l', 's', 'e'] cs with
  | some rest, _ => some (.boolean true, rest)
  | none, some rest => some (.boolean false, rest)
  | none, none =>
    match cs with
    | [] => none
    | c :: rest =>
      if c = '+' || c = '-' then
        if (rest.head?.map Char.isDigit).getD false then decimalNumber? [c] rest
        else specialFloat? rest
      else if c.isDigit then numberOrMoment? cs
      else specialFloat? cs

mutual
def term? : (fuel : Nat) → List Char → Option (Term × List Char)
  | 0, _ => none
  | fuel + 1, cs =>
    match blanks cs with
    | '[' :: rest => (items? fuel (gap false rest)).map fun (items, rest) => (.array items, rest)
    | '\x7b' :: rest =>
      match blanks rest with
      | '\x7d' :: rest => some (.inlineTable [], rest)
      | rest => (pairs? fuel rest).map fun (pairs, rest) => (.inlineTable pairs, rest)
    | c :: rest =>
      if isMark c then (string? (c :: rest) true).map fun (t, rest) => (.string t, rest)
      else scalar? (c :: rest)
    | [] => none
/-- The items of an array; a comma may follow the last. -/
def items? : (fuel : Nat) → List Char → Option (List Term × List Char)
  | 0, _ => none
  | _, ']' :: rest => some ([], rest)
  | fuel + 1, cs => do
    let (item, rest) ← term? fuel cs
    match gap false rest with
    | ',' :: rest =>
      let (items, rest) ← items? fuel (gap false rest)
      some (item :: items, rest)
    | ']' :: rest => some ([item], rest)
    | _ => none
/-- The pairs of a table on one line; no comma follows the last. -/
def pairs? : (fuel : Nat) → List Char → Option (List (Key × Term) × List Char)
  | 0, _ => none
  | fuel + 1, cs => do
    let (key, rest) ← key? (cs.length + 1) cs
    let rest ← expect '=' rest
    let (value, rest) ← term? fuel rest
    match blanks rest with
    | ',' :: rest =>
      let (pairs, rest) ← pairs? fuel (blanks rest)
      some ((key, value) :: pairs, rest)
    | '\x7d' :: rest => some ([(key, value)], rest)
    | _ => none
end

/-! Documents. -/

def header? (cs : List Char) : Option (Item × List Char) :=
  match cs with
  | '[' :: cs => do
    let (key, rest) ← key? (cs.length + 1) cs
    let rest ← expect ']' rest
    let rest ← expect ']' rest
    some (.element key, rest)
  | cs => do
    let (key, rest) ← key? (cs.length + 1) cs
    let rest ← expect ']' rest
    some (.table key, rest)

def pair? (cs : List Char) : Option (Item × List Char) := do
  let (key, rest) ← key? (cs.length + 1) cs
  let rest ← expect '=' rest
  let (value, rest) ← term? (rest.length + 1) rest
  some (.pair key value, rest)

def documentItems? : (fuel : Nat) → List Char → Option (List Item)
  | 0, _ => none
  | fuel + 1, cs =>
    match gap false cs with
    | [] => some []
    | '[' :: rest => do
      let (item, rest) ← header? rest
      let items ← documentItems? fuel (← endOfLine rest)
      some (item :: items)
    | cs => do
      let (item, rest) ← pair? cs
      let items ← documentItems? fuel (← endOfLine rest)
      some (item :: items)

def isClean : List Char → Bool
  | [] => true
  | '\r' :: '\n' :: cs => isClean cs
  | c :: cs =>
    (c == '\t' || c == '\n' || !(c.toNat < 32 || c.toNat = 127 || c.toNat = 0xFFFD)) && isClean cs

/-- A mark of the byte order at the front is passed over. -/
def afterByteOrderMark : Text → Text
  | 0xFF :: 0xFE :: t => t
  | 0xFE :: 0xFF :: t => t
  | 0xEF :: 0xBB :: 0xBF :: t => t
  | t => t

def read (t : Text) : Option (List Item) :=
  let t := afterByteOrderMark t
  let cs := t.chars
  if t.isUtf8 && isClean cs then documentItems? (cs.length + 1) cs else none

end MiddleEnd.Toml
