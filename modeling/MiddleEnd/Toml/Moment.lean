import MiddleEnd.Toml.Number

/-!
Dates and times of documents. A date and a time are joined by a `T` or a blank; an offset from
universal time may follow both.
-/

namespace MiddleEnd.Toml

def digits? (count : Nat) (cs : List Char) : Option (Nat × List Char) :=
  let front := cs.take count
  if front.length = count && front.all Char.isDigit then some (ofDigits 10 front, cs.drop count)
  else none

def expect (c : Char) : List Char → Option (List Char)
  | d :: cs => if c = d then some cs else none
  | [] => none

def daysIn (year month : Nat) : Nat :=
  if month = 2 then
    if year % 4 = 0 && (year % 100 != 0 || year % 400 == 0) then 29 else 28
  else if month = 4 || month = 6 || month = 9 || month = 11 then 30 else 31

def afterDate? (cs : List Char) : Option (List Char) := do
  let (year, cs) ← digits? 4 cs
  let cs ← expect '-' cs
  let (month, cs) ← digits? 2 cs
  let cs ← expect '-' cs
  let (day, cs) ← digits? 2 cs
  if 1 ≤ month && month ≤ 12 && 1 ≤ day && day ≤ daysIn year month then some cs else none

def afterFraction (cs : List Char) : List Char :=
  match cs with
  | '.' :: rest =>
    if (rest.head?.map Char.isDigit).getD false then rest.dropWhile Char.isDigit else cs
  | _ => cs

def hour? (cs : List Char) : Option (Nat × List Char) :=
  match digits? 2 cs with
  | some read => some read
  | none => digits? 1 cs

def afterTime? (cs : List Char) : Option (List Char) := do
  let (hour, cs) ← hour? cs
  let cs ← expect ':' cs
  let (minute, cs) ← digits? 2 cs
  let cs ← expect ':' cs
  let (second, cs) ← digits? 2 cs
  if hour < 24 && minute < 60 && second < 60 then some (afterFraction cs) else none

/-- Nothing, the mark of universal time, or hours and minutes from it. -/
def isOffset (cs : List Char) : Bool :=
  match cs with
  | [] | ['Z'] => true
  | sign :: cs =>
    (sign == '+' || sign == '-') &&
      match digits? 2 cs with
      | some (hours, ':' :: cs) =>
        match digits? 2 cs with
        | some (minutes, []) => hours ≤ 24 && minutes ≤ 60
        | _ => false
      | _ => false

def momentChar (c : Char) : Char :=
  if c = 'z' then 'Z' else if c = 't' || c = ' ' then 'T' else c

def isMoment (cs : List Char) : Bool :=
  let cs := cs.map momentChar
  match afterDate? cs, afterTime? cs with
  | some [], _ | _, some [] => true
  | some ('T' :: cs), _ => ((afterTime? cs).map isOffset).getD false
  | _, _ => false

end MiddleEnd.Toml
