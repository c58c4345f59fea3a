import ScopedHeap.Text

/-!
# Modes and escapes of patterns

How a part of a pattern is read, and what a backslash stands for.
-/
namespace ScopedHeap.Log.Pattern

structure Modes where
  /-- Whole characters are meant, and not single bytes. -/
  unicode : Bool := true
  ignoreCase : Bool := false
  /-- White space and comments are left out. -/
  spaced : Bool := false
  deriving DecidableEq, Repr, Inhabited

namespace Modes

/-- Case is to be ignored beyond ASCII too, which would take a table. -/
def folds (m : Modes) : Bool := m.unicode && m.ignoreCase

/-- The letters of a change of modes: those after the dash are switched off. -/
def change? (m : Modes) (letters : List Char) : Option Modes :=
  let on := letters.takeWhile (· ≠ '-')
  let off := letters.dropWhile (· ≠ '-')
  if letters.all (fun c => "imsUuRx-".toList.contains c && letters.count c == 1)
      && letters.getLast? ≠ some '-' then
    some
      { unicode := (m.unicode || on.contains 'u') && !off.contains 'u'
        ignoreCase := (m.ignoreCase || on.contains 'i') && !off.contains 'i'
        spaced := (m.spaced || on.contains 'x') && !off.contains 'x' }
  else
    none

/-- A text from its first character that is neither white space nor in a comment, where a comment
ends with its line. -/
def dropGap : Bool → List Char → List Char
  | _, [] => []
  | true, c :: s => dropGap (c ≠ '\n') s
  | false, c :: s =>
    if Text.isWhiteSpace c then dropGap false s
    else if c = '#' then dropGap true s
    else c :: s

def skip (m : Modes) (s : List Char) : List Char := if m.spaced then dropGap false s else s

/-- The character that a dash looks ahead to. Of a comment it leaves out the mark and no more, so
that the text of the comment counts. -/
def ahead? (m : Modes) (s : List Char) : Option Char :=
  if m.spaced then
    match s.dropWhile Text.isWhiteSpace with
    | '#' :: rest => (rest.dropWhile Text.isWhiteSpace).head?
    | rest => rest.head?
  else
    s.head?

end Modes

inductive Escape where
  | literal (c : Char)
  /-- A character written as the number of a byte. -/
  | byte (c : Char)
  /-- The edge of a word. -/
  | word
  /-- The beginning or the end of the text. -/
  | edge
  /-- Digits, white space or the characters of words, or all others. -/
  | family (others : Bool)
  deriving DecidableEq, Repr

def hexDigit? (c : Char) : Option Nat := "0123456789abcdef".toList.idxOf? c.toLower

def hexNumber? (m : Modes) : Nat → Nat → List Char → Option (Nat × List Char)
  | 0, n, s => some (n, s)
  | count + 1, n, s =>
    match m.skip s with
    | [] => none
    | c :: rest => (hexDigit? c).bind fun digit => hexNumber? m count (n * 16 + digit) rest

def hex? (m : Modes) (count : Nat) (s : List Char) : Option (Char × List Char) := do
  let (n, rest) ← hexNumber? m count 0 s
  if n < 0xD800 || (0xDFFF < n && n < 0x110000) then some (Char.ofNat n, rest) else none

def controls : List (Char × Char) :=
  [('a', '\x07'), ('f', '\x0C'), ('t', '\x09'), ('n', '\x0A'), ('r', '\x0D'), ('v', '\x0B')]

def escape? (m : Modes) : List Char → Option (Escape × List Char)
  | [] => none
  | 'x' :: s => (hex? m 2 s).map fun (c, rest) => (.byte c, rest)
  | 'u' :: s => (hex? m 4 s).map fun (c, rest) => (.literal c, rest)
  | 'U' :: s => (hex? m 8 s).map fun (c, rest) => (.literal c, rest)
  | c :: s =>
    if "dsw".toList.contains c then some (.family false, s)
    else if "DSW".toList.contains c then some (.family true, s)
    else if "bB<>".toList.contains c then some (.word, s)
    else if "Az".toList.contains c then some (.edge, s)
    else if c.toNat < 0x80 && !c.isAlphanum then some (.literal c, s)
    else (controls.lookup c).map (.literal ·, s)

def Modes.allows (m : Modes) : Escape → Bool
  | .literal _ => !m.folds
  | .byte c => !m.folds && (m.unicode || c.toNat < 0x80)
  | .word => !m.unicode
  | .edge => true
  | .family others => !m.unicode && !others

end ScopedHeap.Log.Pattern
