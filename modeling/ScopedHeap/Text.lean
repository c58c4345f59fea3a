/-!
# Text from outside

Bytes become text only if they are well-formed UTF-8. White space is what Unicode calls so.
-/
namespace ScopedHeap.Text

def decode? (bytes : List UInt8) : Option String := String.fromUTF8? ⟨bytes.toArray⟩

/-- The characters with the property White_Space, as ranges of code points. -/
def whiteSpace : List (Nat × Nat) :=
  [(0x09, 0x0D), (0x20, 0x20), (0x85, 0x85), (0xA0, 0xA0), (0x1680, 0x1680), (0x2000, 0x200A),
    (0x2028, 0x2029), (0x202F, 0x202F), (0x205F, 0x205F), (0x3000, 0x3000)]

def among (ranges : List (Nat × Nat)) (c : Char) : Bool :=
  ranges.any fun (low, high) => low ≤ c.toNat && c.toNat ≤ high

def isWhiteSpace (c : Char) : Bool := among whiteSpace c

def trim (s : List Char) : List Char :=
  ((s.dropWhile isWhiteSpace).reverse.dropWhile isWhiteSpace).reverse

/-- ASCII letters become small ones. The words looked for in this way have no letter that is the
small form of a character outside ASCII, so nothing is lost by leaving the others alone. -/
def lower (s : List Char) : List Char := s.map Char.toLower

/-- The number below a bound that a text writes in ASCII digits, with a plus sign or without. -/
def natural? (bound : Nat) (s : List Char) : Option Nat :=
  let digits :=
    match s with
    | '+' :: rest => rest
    | s => s
  if digits.isEmpty || !digits.all Char.isDigit then
    none
  else
    let n := digits.foldl (fun n c => n * 10 + (c.toNat - '0'.toNat)) 0
    if n < bound then some n else none

def size : List Char → Nat
  | [] => 0
  | c :: s => c.utf8Size + size s

/-- The characters that begin within the first bytes of a text. -/
def takeBytes : Nat → List Char → List Char
  | n + 1, c :: s => c :: takeBytes (n + 1 - c.utf8Size) s
  | _, _ => []

/-- The characters that do not. -/
def dropBytes : Nat → List Char → List Char
  | n + 1, c :: s => dropBytes (n + 1 - c.utf8Size) s
  | _, s => s

theorem takeBytes_cons (n : Nat) (c : Char) (s : List Char) :
    takeBytes (c.utf8Size + n) (c :: s) = c :: takeBytes n s := by
  have pos := c.utf8Size_pos
  obtain ⟨k, hk⟩ : ∃ k, c.utf8Size + n = k + 1 := ⟨c.utf8Size + n - 1, by omega⟩
  rw [hk, takeBytes, show k + 1 - c.utf8Size = n by omega]

theorem dropBytes_cons (n : Nat) (c : Char) (s : List Char) :
    dropBytes (c.utf8Size + n) (c :: s) = dropBytes n s := by
  have pos := c.utf8Size_pos
  obtain ⟨k, hk⟩ : ∃ k, c.utf8Size + n = k + 1 := ⟨c.utf8Size + n - 1, by omega⟩
  rw [hk, dropBytes, show k + 1 - c.utf8Size = n by omega]

theorem takeBytes_size_append (s rest : List Char) : takeBytes (size s) (s ++ rest) = s := by
  induction s with
  | nil => cases rest <;> rfl
  | cons c s ih => rw [size, List.cons_append, takeBytes_cons, ih]

theorem dropBytes_size_append (s rest : List Char) : dropBytes (size s) (s ++ rest) = rest := by
  induction s with
  | nil => cases rest <;> rfl
  | cons c s ih => rw [size, List.cons_append, dropBytes_cons, ih]

/-- The variables of a process, each with its bytes. -/
structure Environment where
  entries : List (String × List UInt8)
  deriving DecidableEq, Repr, Inhabited

/-- The text of a variable. One whose bytes are no text counts as absent. -/
def Environment.get? (env : Environment) (name : String) : Option String :=
  (env.entries.lookup name).bind decode?

end ScopedHeap.Text
