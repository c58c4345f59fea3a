import ScopedHeap.Toml.Moment
import ScopedHeap.Toml.Number
import ScopedHeap.Toml.Value

/-!
# Reading TOML keys and values
-/
namespace ScopedHeap.Toml

/-- Keys have fewer parts, and values are nested less deeply, than this. -/
def nestingLimit : Nat := 80

def isBareKeyChar (c : Char) : Bool :=
  ('a' ≤ c && c ≤ 'z') || ('A' ≤ c && c ≤ 'Z') || ('0' ≤ c && c ≤ '9') || c = '-' || c = '_'

def keyPart : Reader String
  | '"' :: rest => (basicString rest).map fun (cs, rest) => (String.ofList cs, rest)
  | '\'' :: rest => (literalString rest).map fun (cs, rest) => (String.ofList cs, rest)
  | s =>
    let bare := s.takeWhile isBareKeyChar
    if bare.isEmpty then none else some (String.ofList bare, s.dropWhile isBareKeyChar)

def keyParts (s : List Char) : Option (List String × List Char) := do
  let (part, rest) ← keyPart (skipBlanks s)
  match skipBlanks rest with
  | '.' :: more =>
    if more.length < s.length then
      let (parts, rest) ← keyParts more
      return (part :: parts, rest)
    else
      none
  | rest => return ([part], rest)
termination_by s.length

structure Key where
  path : List String
  last : String
  deriving DecidableEq, Repr, Inhabited

def key : Reader Key := fun s => do
  let (parts, rest) ← keyParts s
  let last ← parts.getLast?
  if parts.length < nestingLimit then return (⟨parts.dropLast, last⟩, rest) else none

def arrayItems (item : Reader Value) (s : List Char) : Option (List Value × List Char) :=
  match skipTrivia s with
  | ']' :: rest => some ([], rest)
  | start => do
    let (v, rest) ← item start
    match skipTrivia rest with
    | ']' :: rest => return ([v], rest)
    | ',' :: more =>
      if more.length < s.length then
        let (vs, rest) ← arrayItems item more
        return (v :: vs, rest)
      else
        none
    | _ => none
termination_by s.length

def keyValue (value : Reader Value) : Reader (Key × Value) := fun s => do
  let (k, rest) ← key s
  let (v, rest) ← value (skipBlanks (← after? '=' rest))
  return ((k, v), skipBlanks rest)

/-- The entries of an inline table that has some, after the opening brace or a comma. -/
def inlineEntries (value : Reader Value) (entries : Entries) (s : List Char) :
    Option (Entries × List Char) := do
  let ((k, v), rest) ← keyValue value s
  let entries ← entries.addDotted? k.path k.last v
  match rest with
  | '}' :: rest => return (entries, rest)
  | ',' :: more =>
    if more.length < s.length then inlineEntries value entries more else none
  | _ => none
termination_by s.length

def inlineTable (value : Reader Value) : Reader Value := fun s =>
  match skipBlanks s with
  | '}' :: rest => some (.table .inline [], rest)
  | s => (inlineEntries value [] s).map fun (entries, rest) => (.table .inline entries, rest)

def scalar : Reader Value
  | 't' :: 'r' :: 'u' :: 'e' :: rest => some (.boolean true, rest)
  | 'f' :: 'a' :: 'l' :: 's' :: 'e' :: rest => some (.boolean false, rest)
  | s =>
    if s.head?.any (fun c => c = '"' || c = '\'') then
      (string s).map fun (text, rest) => (.string text, rest)
    else
      match moment s with
      | some (text, rest) => some (.moment text, rest)
      | none =>
        match number s with
        | some (.integer i, rest) => some (.integer i, rest)
        | some (.float text, rest) => some (.float text, rest)
        | none => none

/-- A value in which arrays and tables are nested less deeply than `depth`. -/
def value : (depth : Nat) → Reader Value
  | depth + 1, '[' :: rest =>
    if depth = 0 then none
    else (arrayItems (value depth) rest).map fun (items, rest) => (.array items, rest)
  | depth + 1, '\x7b' :: rest => if depth = 0 then none else inlineTable (value depth) rest
  | _, s => scalar s

end ScopedHeap.Toml
