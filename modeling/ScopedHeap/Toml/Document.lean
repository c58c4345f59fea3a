import ScopedHeap.Toml.Reader

/-!
# TOML documents

A document is read as a list of statements, and the statements are carried out on a table that is
empty at first.
-/
namespace ScopedHeap.Toml

inductive Statement where
  | assign (k : Key) (v : Value)
  | header (k : Key)
  | arrayHeader (k : Key)
  deriving Repr, Inhabited

/-- The statement at the beginning of a line, and what follows that line. -/
def statement : Reader Statement
  | '[' :: '[' :: rest => do
    let (k, rest) ← key rest
    return (.arrayHeader k, ← restOfLine? (← after? ']' (← after? ']' rest)))
  | '[' :: rest => do
    let (k, rest) ← key rest
    return (.header k, ← restOfLine? (← after? ']' rest))
  | s => do
    let ((k, v), rest) ← keyValue (value nestingLimit) s
    return (.assign k v, ← restOfLine? rest)

def statements (s : List Char) : Option (List Statement) :=
  match skipBlanks s with
  | [] => some []
  | start =>
    match restOfLine? start with
    | some rest => if rest.length < s.length then statements rest else none
    | none => do
      let (first, rest) ← statement start
      if rest.length < s.length then return first :: (← statements rest) else none
termination_by s.length

structure Draft where
  root : Entries := []
  current : List String := []
  deriving Inhabited

def Draft.carryOut? (d : Draft) : Statement → Option Draft
  | .assign k v => do
    let root ← Entries.modifyUnder? d.current (Entries.addDotted? k.path k.last v) d.root
    return { d with root }
  | .header k => do
    let root ← Entries.modifyUnder? k.path (Entries.openTable? k.last) d.root
    return { root, current := k.path ++ [k.last] }
  | .arrayHeader k => do
    let root ← Entries.modifyUnder? k.path (Entries.openElement? k.last) d.root
    return { root, current := k.path ++ [k.last] }

/-- A mark of the byte order in front of a text is no part of it. -/
def skipByteOrderMark : List Char → List Char
  | '\uFEFF' :: rest => rest
  | s => s

def parse? (text : String) : Option Entries := do
  let steps ← statements (skipByteOrderMark text.toList)
  let draft ← steps.foldlM Draft.carryOut? {}
  return draft.root

end ScopedHeap.Toml
