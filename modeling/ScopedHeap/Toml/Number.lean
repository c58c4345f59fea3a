import ScopedHeap.Toml.Text

/-!
# TOML numbers

Integers are 64-bit and may be written in four bases. Of a float only its text is kept, provided
that it does not run over to positive infinity.
-/
namespace ScopedHeap.Toml

/-- Digits of a row that has begun; an underscore may stand between two of them. -/
def moreDigits (base : Nat) : Reader (List Char)
  | '_' :: d :: rest =>
    if isDigitIn base d then (moreDigits base rest).map fun (ds, rest) => (d :: ds, rest) else none
  | ['_'] => none
  | c :: rest =>
    if isDigitIn base c then
      (moreDigits base rest).map fun (ds, rest) => (c :: ds, rest)
    else
      some ([], c :: rest)
  | [] => some ([], [])

def digits (base : Nat) : Reader (List Char)
  | c :: rest =>
    if isDigitIn base c then
      (moreDigits base rest).map fun (ds, rest) => (c :: ds, rest)
    else
      none
  | [] => none

/-- Digits of a decimal number, without a needless zero in front. -/
def decimalDigits : Reader (List Char)
  | '0' :: rest => some (['0'], rest)
  | s => digits 10 s

/-- Whether a sign is there, negative if so, and what follows. -/
def sign : List Char → Bool × List Char
  | '-' :: rest => (true, rest)
  | '+' :: rest => (false, rest)
  | s => (false, s)

inductive Number where
  | integer (i : Int)
  | float (text : String)
  deriving DecidableEq, Repr, Inhabited

def Number.ofInt? (i : Int) : Option Number :=
  if Int64.minValue.toInt ≤ i ∧ i ≤ Int64.maxValue.toInt then some (.integer i) else none

/-- The least real number that is rounded to infinity: half a unit above the largest binary64. -/
def overflowThreshold : Nat := Nat.pow 2 1024 - Nat.pow 2 970

/-- Whether `mantissa * 10 ^ exponent` is rounded to infinity. The number of digits settles it for
all but a narrow range of magnitudes. -/
def overflows (mantissa : Nat) (exponent : Int) : Bool :=
  let magnitude := (Nat.toDigits 10 mantissa).length + exponent
  if mantissa = 0 ∨ magnitude ≤ 308 then false
  else if 310 ≤ magnitude then true
  else if 0 ≤ exponent then overflowThreshold ≤ mantissa * Nat.pow 10 exponent.toNat
  else overflowThreshold * Nat.pow 10 (-exponent).toNat ≤ mantissa

def fraction : Reader (List Char)
  | '.' :: rest => digits 10 rest
  | s => some ([], s)

def exponent : Reader (Option Int)
  | c :: rest =>
    if c = 'e' ∨ c = 'E' then
      let (negative, rest) := sign rest
      (digits 10 rest).map fun (ds, rest) =>
        let n : Int := numberIn 10 ds
        (some (if negative then -n else n), rest)
    else
      some (none, c :: rest)
  | [] => some (none, [])

def decimalTail (negative : Bool) (whole : List Char) : Reader Number := fun s => do
  let (behind, rest) ← fraction s
  let (power, rest) ← exponent rest
  if behind.isEmpty ∧ power.isNone then
    let n : Int := numberIn 10 whole
    return (← Number.ofInt? (if negative then -n else n), rest)
  else
    let shift : Int := power.getD 0 - behind.length
    if !negative && overflows (numberIn 10 (whole ++ behind)) shift then
      none
    else
      let text := s.take (s.length - rest.length)
      return (.float (String.ofList ((if negative then ['-'] else []) ++ whole ++ text)), rest)

def specialFloat (negative : Bool) : Reader Number
  | 'i' :: 'n' :: 'f' :: rest => some (.float (if negative then "-inf" else "inf"), rest)
  | 'n' :: 'a' :: 'n' :: rest => some (.float "nan", rest)
  | _ => none

def prefixed (base : Nat) : Reader Number := fun s => do
  let (ds, rest) ← digits base s
  return (← Number.ofInt? (numberIn base ds), rest)

def number : Reader Number
  | '0' :: 'x' :: rest => prefixed 16 rest
  | '0' :: 'o' :: rest => prefixed 8 rest
  | '0' :: 'b' :: rest => prefixed 2 rest
  | s =>
    let (negative, rest) := sign s
    match decimalDigits rest with
    | some (whole, rest) => decimalTail negative whole rest
    | none => specialFloat negative rest

end ScopedHeap.Toml
