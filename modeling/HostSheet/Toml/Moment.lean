import HostSheet.Toml.Layout

/-!
# Dates and times in TOML

A moment is a date, a time, or a date and a time, the last perhaps with an offset. Days exist in
their month, and the sixtieth second may be counted. What a moment means is not looked at further.
-/

namespace HostSheet.Toml

def fixedDigits? (n : Nat) : (count : Nat) → List Char → Option (Nat × List Char)
  | 0, s => some (n, s)
  | _ + 1, [] => none
  | count + 1, c :: s =>
    if c.isDigit then fixedDigits? (10 * n + (c.toNat - '0'.toNat)) count s else none

def twoDigits? (low high : Nat) (s : List Char) : Option (Nat × List Char) := do
  let (n, rest) ← fixedDigits? 0 2 s
  if low ≤ n ∧ n ≤ high then some (n, rest) else none

def afterChar? (c : Char) : List Char → Option (List Char)
  | [] => none
  | d :: s => if d = c then some s else none

def daysIn (year month : Nat) : Nat :=
  if month = 2 then
    if year % 4 = 0 ∧ (year % 100 ≠ 0 ∨ year % 400 = 0) then 29 else 28
  else if month = 4 ∨ month = 6 ∨ month = 9 ∨ month = 11 then 30
  else 31

def afterDate? (s : List Char) : Option (List Char) := do
  let (year, s) ← fixedDigits? 0 4 s
  let s ← afterChar? '-' s
  let (month, s) ← twoDigits? 1 12 s
  let s ← afterChar? '-' s
  let (_, s) ← twoDigits? 1 (daysIn year month) s
  return s

def skipFraction : List Char → List Char
  | '.' :: c :: s => if c.isDigit then s.dropWhile Char.isDigit else '.' :: c :: s
  | s => s

def afterTime? (s : List Char) : Option (List Char) := do
  let (_, s) ← twoDigits? 0 23 s
  let s ← afterChar? ':' s
  let (_, s) ← twoDigits? 0 59 s
  let s ← afterChar? ':' s
  let (_, s) ← twoDigits? 0 60 s
  return skipFraction s

def afterOffset? : List Char → Option (List Char)
  | [] => none
  | c :: s =>
    if c = 'Z' ∨ c = 'z' then some s
    else if c = '+' ∨ c = '-' then do
      let (_, s) ← twoDigits? 0 23 s
      let s ← afterChar? ':' s
      let (_, s) ← twoDigits? 0 59 s
      return s
    else none

def skipTimeOfDate : List Char → List Char
  | [] => []
  | c :: s =>
    if c = 'T' ∨ c = 't' ∨ c = ' ' then
      match afterTime? s with
      | some rest => (afterOffset? rest).getD rest
      | none => c :: s
    else c :: s

def afterMoment? (s : List Char) : Option (List Char) :=
  match afterDate? s with
  | some rest => some (skipTimeOfDate rest)
  | none => afterTime? s

/-- Whether a text can be nothing but a moment: four digits and a hyphen, or two and a colon. -/
def startsMoment (s : List Char) : Bool :=
  (match fixedDigits? 0 4 s with
    | some (_, '-' :: _) => true
    | _ => false) ||
  (match fixedDigits? 0 2 s with
    | some (_, ':' :: _) => true
    | _ => false)

def readMoment : Scan Value := fun s => do
  let rest ← afterMoment? s
  if h : rest.length < s.length then
    some ⟨.moment (String.ofList (s.take (s.length - rest.length))), rest, h⟩
  else none

end HostSheet.Toml
