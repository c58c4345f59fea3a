/-!
# TOML text

Blanks, line ends, comments and strings. A reader takes the front of its input and returns what it
has read with the rest.
-/
namespace ScopedHeap.Toml

abbrev Reader (α : Type) := List Char → Option (α × List Char)

def isBlank (c : Char) : Bool := c = ' ' || c = '\t'

/-- Anything but control characters; a tab is none. -/
def isPrintable (c : Char) : Bool := c = '\t' || (' ' ≤ c && c ≤ '~') || '\x80' ≤ c

def skipBlanks (s : List Char) : List Char := s.dropWhile isBlank

def newline? : List Char → Option (List Char)
  | '\n' :: rest => some rest
  | '\r' :: '\n' :: rest => some rest
  | _ => none

def lineEnd? : List Char → Option (List Char)
  | [] => some []
  | s => newline? s

def skipComment : List Char → List Char
  | '#' :: rest => rest.dropWhile isPrintable
  | s => s

/-- What follows a line of which nothing is left but blanks and a comment. -/
def restOfLine? (s : List Char) : Option (List Char) := lineEnd? (skipComment (skipBlanks s))

/-- Skips blanks, line breaks and comments; `inComment` tells that a comment has begun. -/
def skipTriviaFrom (inComment : Bool) : List Char → List Char
  | [] => []
  | '\n' :: rest => skipTriviaFrom false rest
  | '\r' :: '\n' :: rest => skipTriviaFrom false rest
  | c :: rest =>
    if inComment then
      if isPrintable c then skipTriviaFrom true rest else c :: rest
    else if isBlank c then skipTriviaFrom false rest
    else if c = '#' then skipTriviaFrom true rest
    else c :: rest

def skipTrivia (s : List Char) : List Char := skipTriviaFrom false s

def skipLines : List Char → List Char
  | '\n' :: rest => skipLines rest
  | '\r' :: '\n' :: rest => skipLines rest
  | c :: rest => if isBlank c then skipLines rest else c :: rest
  | [] => []

theorem length_skipLines_le (s : List Char) : (skipLines s).length ≤ s.length := by
  fun_induction skipLines s <;> simp_all <;> omega

theorem length_lt_of_newline? {s rest : List Char} (h : newline? s = some rest) :
    rest.length < s.length := by
  unfold newline? at h
  split at h
  · cases h
    exact Nat.lt_succ_self _
  · cases h
    exact Nat.lt_succ_of_lt (Nat.lt_succ_self _)
  · cases h

def digitValue? (c : Char) : Option Nat :=
  if '0' ≤ c ∧ c ≤ '9' then some (c.toNat - '0'.toNat)
  else if 'a' ≤ c ∧ c ≤ 'f' then some (c.toNat - 'a'.toNat + 10)
  else if 'A' ≤ c ∧ c ≤ 'F' then some (c.toNat - 'A'.toNat + 10)
  else none

def isDigitIn (base : Nat) (c : Char) : Bool := (digitValue? c).any (· < base)

def numberIn (base : Nat) (digits : List Char) : Nat :=
  digits.foldl (fun n c => n * base + (digitValue? c).getD 0) 0

/-- The character with a hexadecimal number of just `width` digits at the front of a text. -/
def codePoint? (width : Nat) (s : List Char) : Option Char :=
  let digits := s.take width
  if digits.length = width ∧ digits.all (isDigitIn 16) then
    let n := numberIn 16 digits
    if n < 0xD800 ∨ (0xDFFF < n ∧ n < 0x110000) then some (Char.ofNat n) else none
  else
    none

/-- The character that an escape sequence stands for and the length of the sequence, given what
follows the backslash. -/
def escape? : List Char → Option (Char × Nat)
  | 'b' :: _ => some ('\x08', 1)
  | 't' :: _ => some ('\t', 1)
  | 'n' :: _ => some ('\n', 1)
  | 'f' :: _ => some ('\x0c', 1)
  | 'r' :: _ => some ('\r', 1)
  | '"' :: _ => some ('"', 1)
  | '\\' :: _ => some ('\\', 1)
  | 'u' :: rest => (codePoint? 4 rest).map (·, 5)
  | 'U' :: rest => (codePoint? 8 rest).map (·, 9)
  | _ => none

def basicString : Reader (List Char)
  | '"' :: rest => some ([], rest)
  | '\\' :: rest =>
    match escape? rest with
    | some (c, n) => (basicString (rest.drop n)).map fun (cs, rest) => (c :: cs, rest)
    | none => none
  | c :: rest =>
    if isPrintable c then (basicString rest).map fun (cs, rest) => (c :: cs, rest) else none
  | [] => none
termination_by s => s.length
decreasing_by all_goals (simp only [List.length_cons, List.length_drop]; omega)

def literalString : Reader (List Char)
  | '\'' :: rest => some ([], rest)
  | c :: rest =>
    if isPrintable c then (literalString rest).map fun (cs, rest) => (c :: cs, rest) else none
  | [] => none

/-- How many of the quotes in a row of `n` belong to the text of a string in triple quotes: all of
them if the row is too short to close the string, and otherwise at most two. -/
def innerQuotes (n : Nat) : Nat := if n < 3 then n else min (n - 3) 2

/-- The rest of a string in triple double quotes, after the opening ones and a line break next to
them. A backslash at the end of a line joins the lines. -/
def basicLines : Reader (List Char)
  | [] => none
  | '\n' :: rest => (basicLines rest).map fun (cs, rest) => ('\n' :: cs, rest)
  | '\r' :: '\n' :: rest => (basicLines rest).map fun (cs, rest) => ('\n' :: cs, rest)
  | '"' :: rest =>
    let row := (rest.takeWhile (· = '"')).length + 1
    let quotes := List.replicate (innerQuotes row) '"'
    if row < 3 then
      (basicLines (rest.drop (row - 1))).map fun (cs, rest) => (quotes ++ cs, rest)
    else
      some (quotes, rest.drop (innerQuotes row + 2))
  | '\\' :: rest =>
    match _joined : newline? (skipBlanks rest) with
    | some more => basicLines (skipLines more)
    | none =>
      match escape? rest with
      | some (c, n) => (basicLines (rest.drop n)).map fun (cs, rest) => (c :: cs, rest)
      | none => none
  | c :: rest =>
    if isPrintable c then (basicLines rest).map fun (cs, rest) => (c :: cs, rest) else none
termination_by s => s.length
decreasing_by
  all_goals simp only [List.length_cons, List.length_drop]
  all_goals try omega
  have joined := length_lt_of_newline? _joined
  have skipped := length_skipLines_le more
  have blanks : (skipBlanks rest).length ≤ rest.length := (List.dropWhile_sublist _).length_le
  omega

def literalLines : Reader (List Char)
  | [] => none
  | '\n' :: rest => (literalLines rest).map fun (cs, rest) => ('\n' :: cs, rest)
  | '\r' :: '\n' :: rest => (literalLines rest).map fun (cs, rest) => ('\n' :: cs, rest)
  | '\'' :: rest =>
    let row := (rest.takeWhile (· = '\'')).length + 1
    let quotes := List.replicate (innerQuotes row) '\''
    if row < 3 then
      (literalLines (rest.drop (row - 1))).map fun (cs, rest) => (quotes ++ cs, rest)
    else
      some (quotes, rest.drop (innerQuotes row + 2))
  | c :: rest =>
    if isPrintable c then (literalLines rest).map fun (cs, rest) => (c :: cs, rest) else none
termination_by s => s.length
decreasing_by all_goals (simp only [List.length_cons, List.length_drop]; omega)

def string : Reader String
  | '"' :: '"' :: '"' :: rest =>
    (basicLines ((newline? rest).getD rest)).map fun (cs, rest) => (String.ofList cs, rest)
  | '"' :: rest => (basicString rest).map fun (cs, rest) => (String.ofList cs, rest)
  | '\'' :: '\'' :: '\'' :: rest =>
    (literalLines ((newline? rest).getD rest)).map fun (cs, rest) => (String.ofList cs, rest)
  | '\'' :: rest => (literalString rest).map fun (cs, rest) => (String.ofList cs, rest)
  | _ => none

end ScopedHeap.Toml
