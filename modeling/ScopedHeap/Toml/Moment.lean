import ScopedHeap.Toml.Text

/-!
# TOML dates and times

A moment is a date, a time of day, or both, then possibly with an offset. Its text is kept.
-/
namespace ScopedHeap.Toml

def fixedNumber (width low high : Nat) : Reader Nat := fun s =>
  let ds := s.take width
  let n := numberIn 10 ds
  if ds.length = width ∧ ds.all (isDigitIn 10) ∧ low ≤ n ∧ n ≤ high then
    some (n, s.drop width)
  else
    none

/-- What follows a character that has to be there. -/
def after? (c : Char) : List Char → Option (List Char)
  | d :: rest => if c = d then some rest else none
  | [] => none

def isLeapYear (year : Nat) : Bool := year % 4 = 0 && (year % 100 ≠ 0 || year % 400 = 0)

def daysIn (year month : Nat) : Nat :=
  match month with
  | 2 => if isLeapYear year then 29 else 28
  | 4 | 6 | 9 | 11 => 30
  | _ => 31

def date? (s : List Char) : Option (List Char) := do
  let (year, s) ← fixedNumber 4 0 9999 s
  let (month, s) ← fixedNumber 2 1 12 (← after? '-' s)
  let (_, s) ← fixedNumber 2 1 (daysIn year month) (← after? '-' s)
  return s

def skipSecondFraction : List Char → List Char
  | '.' :: c :: rest => if isDigitIn 10 c then rest.dropWhile (isDigitIn 10) else '.' :: c :: rest
  | s => s

def time? (s : List Char) : Option (List Char) := do
  let (_, s) ← fixedNumber 2 0 23 s
  let (_, s) ← fixedNumber 2 0 59 (← after? ':' s)
  let (_, s) ← fixedNumber 2 0 60 (← after? ':' s)
  return skipSecondFraction s

def offset? : List Char → Option (List Char)
  | c :: rest =>
    if c = 'Z' ∨ c = 'z' then
      some rest
    else if c = '+' ∨ c = '-' then do
      let (_, s) ← fixedNumber 2 0 23 rest
      let (_, s) ← fixedNumber 2 0 59 (← after? ':' s)
      return s
    else
      some (c :: rest)
  | [] => some []

/-- A time may follow a date, set off by a letter or a blank. -/
def timeOfDate? : List Char → Option (List Char)
  | c :: rest => if c = 'T' ∨ c = 't' ∨ c = ' ' then time? rest else none
  | [] => none

def momentEnd? (s : List Char) : Option (List Char) :=
  match date? s with
  | some rest =>
    match timeOfDate? rest with
    | some rest => offset? rest
    | none => some rest
  | none => time? s

def moment : Reader String := fun s => do
  let rest ← momentEnd? s
  return (String.ofList (s.take (s.length - rest.length)), rest)

end ScopedHeap.Toml
