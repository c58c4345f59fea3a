import ScopedHeap.Log.Pattern.Nesting
import ScopedHeap.Text.Alphanumeric

/-!
# Reading patterns

A pattern is read one part after the other. A step takes the next character and as much of the text
after it as belongs to the same part.
-/
namespace ScopedHeap.Log.Pattern

structure State where
  group : Group := {}
  /-- The groups around it. -/
  outer : List Group := []
  /-- The sets that are open, the innermost first. -/
  sets : List CharSet := []
  /-- The names of the groups. -/
  names : List (List Char) := []
  deriving DecidableEq, Repr, Inhabited

namespace State

abbrev modes (st : State) : Modes := st.group.modes

def add (st : State) (depth : Nat) : State := { st with group := st.group.add depth }

def enter (st : State) (modes : Modes) : State :=
  { st with group := { modes }, outer := st.group :: st.outer }

def leave? (st : State) : Option State :=
  match st.outer with
  | [] => none
  | group :: outer => some { st with group := group.add (st.group.depth + 1), outer }

def isGroupName (name : List Char) : Bool :=
  name.head?.any (fun c => c = '_' || Text.isAlphabetic c) &&
    name.all fun c => "_.[]".toList.contains c || Text.isAlphanumeric c

def named? (st : State) (s : List Char) : Option (State × List Char) :=
  let name := s.takeWhile (· ≠ '>')
  if isGroupName name && !st.names.contains name then
    match s.drop name.length with
    | [] => none
    | _ :: rest => some ({ st.enter st.modes with names := name :: st.names }, rest)
  else
    none

def change? (st : State) (s : List Char) : Option (State × List Char) := do
  let letters := s.takeWhile fun c => c ≠ ':' && c ≠ ')'
  let modes ← st.modes.change? letters
  match s.drop letters.length with
  | ':' :: rest => some (st.enter modes, rest)
  | ')' :: rest =>
    if letters.isEmpty then none else some ({ st with group := st.group.change modes }, rest)
  | _ => none

def group? (st : State) : List Char → Option (State × List Char)
  | '?' :: 'P' :: '<' :: s => st.named? s
  | '?' :: '<' :: s => st.named? s
  | '?' :: s => st.change? s
  | s => some (st.enter st.modes, s)

def repeat? (st : State) (s : List Char) : Option (State × List Char) := do
  let group ← st.group.repeat?
  return ({ st with group }, if s.head? = some '?' then s.tail else s)

def part? (st : State) (c : Char) (s : List Char) : Option (State × List Char) :=
  match c with
  | '(' => st.group? (st.modes.skip s)
  | ')' => st.leave?.map (·, s)
  | '|' => some ({ st with group := st.group.choose }, s)
  | '[' => some ({ st with sets := [{}] }, s)
  | '*' | '+' | '?' => st.repeat? s
  | '\x7b' => none
  | '\\' => do
    let (escape, rest) ← escape? st.modes s
    if st.modes.allows escape then some (st.add 0, rest) else none
  | '.' => if st.modes.unicode then some (st.add 0, s) else none
  | '^' | '$' => some (st.add 0, s)
  | _ => if st.modes.folds then none else some (st.add 0, s)

/-- A member of the innermost set. Where case is ignored a set can only be made of other sets. -/
def addMember? (st : State) (opening : Opening := .done) : Option State :=
  match st.sets with
  | set :: sets =>
    if st.modes.folds then none else some { st with sets := set.add 0 opening :: sets }
  | [] => none

/-- The end of the innermost set, which is a member of the one around it or a part by itself. -/
def close (st : State) : State :=
  match st.sets with
  | set :: around :: sets => { st with sets := around.add (set.depth + 1) :: sets }
  | [set] => { st with sets := [] }.add (set.depth + 1)
  | [] => st

/-- The sign of a complement. That of a set of bytes would hold parts of characters. -/
def complement? (st : State) : Option State :=
  match st.sets with
  | set :: sets =>
    if st.modes.unicode then
      some { st with sets := { set with opening := .caret } :: sets }
    else
      none
  | [] => none

def operate (st : State) : State :=
  match st.sets with
  | set :: sets => { st with sets := set.operate :: sets }
  | [] => st

def member? (st : State) (c : Char) (s : List Char) : Option (Option Char × List Char) := do
  let (escape, rest) ← if c = '\\' then escape? st.modes s else some (.literal c, s)
  match escape with
  | .literal c | .byte c =>
    if st.modes.unicode || c.toNat < 0x80 then some (some c, rest) else none
  | .family _ => if st.modes.allows escape then some (none, rest) else none
  | .word | .edge => none

/-- A member of a set, or a range of characters. A dash before another dash or a bracket makes no
range. -/
def range? (st : State) (c : Char) (s : List Char) : Option (State × List Char) := do
  let single ← st.addMember?
  let (low, rest) ← st.member? c s
  match st.modes.skip rest with
  | '-' :: after =>
    if st.modes.ahead? after = some ']' || st.modes.ahead? after = some '-' then
      some (single, rest)
    else
      match st.modes.skip after with
      | [] => none
      | d :: after =>
        let (high, rest) ← st.member? d after
        match low, high with
        | some low, some high => if low.toNat ≤ high.toNat then some (single, rest) else none
        | _, _ => none
  | _ => some (single, rest)

def setNames : List String :=
  ["alnum", "alpha", "ascii", "blank", "cntrl", "digit", "graph", "lower", "print", "punct",
    "space", "upper", "word", "xdigit"]

/-- A named set, after the bracket: whether its complement is meant, and the text after it. -/
def namedSet? : List Char → Option (Bool × List Char)
  | ':' :: s =>
    let negated := s.head? = some '^'
    let s := if negated then s.tail else s
    let name := s.takeWhile (· ≠ ':')
    match s.drop name.length with
    | ':' :: ']' :: rest =>
      if setNames.contains (String.ofList name) then some (negated, rest) else none
    | _ => none
  | _ => none

def element? (st : State) (c : Char) (s : List Char) : Option (State × List Char) :=
  match c, s with
  | '[', s =>
    match namedSet? s with
    | some (negated, rest) =>
      if negated && !st.modes.unicode then none else st.addMember?.map (·, rest)
    | none => some ({ st with sets := {} :: st.sets }, s)
  | ']', s => some (st.close, s)
  | '&', '&' :: rest => some (st.operate, rest)
  | '-', '-' :: rest => some (st.operate, rest)
  | '~', '~' :: rest => some (st.operate, rest)
  | c, s => st.range? c s

/-- One part of a set. At its beginning dashes stand for themselves, and so does a bracket that
comes first. -/
def setPart? (st : State) (opening : Opening) (c : Char) (s : List Char) :
    Option (State × List Char) :=
  match opening, c with
  | .bracket, '^' => st.complement?.map (·, s)
  | .bracket, ']' | .caret, ']' => st.addMember?.map (·, s)
  | .bracket, '-' | .caret, '-' | .dashes, '-' => (st.addMember? .dashes).map (·, s)
  | _, _ => st.element? c s

def step? (st : State) (c : Char) (s : List Char) : Option (State × List Char) :=
  match st.sets with
  | [] => st.part? c s
  | set :: _ => st.setPart? set.opening c s

def isComplete (st : State) : Bool :=
  st.outer.isEmpty && st.sets.isEmpty && st.group.depth ≤ nestLimit

def completes (st : State) (s : List Char) : Bool :=
  match st.modes.skip s with
  | [] => st.isComplete
  | c :: rest =>
    match st.step? c rest with
    | some (st, rest) => if rest.length < s.length then st.completes rest else false
    | none => false
  termination_by s.length

end State

end ScopedHeap.Log.Pattern
