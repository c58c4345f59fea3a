import ScopedHeap.Log.Pattern.Escape

/-!
# The nesting of patterns

Groups, repetitions, sets in brackets, operators on sets, and several parts in a row or to choose
from are each one level above what they hold. The levels of a pattern are limited, so while it is
read the depth of each finished part is kept and nothing else of it.
-/
namespace ScopedHeap.Log.Pattern

def nestLimit : Nat := 250

/-- The depth of several parts together. One alone adds no level. -/
def jointDepth : List Nat → Nat
  | [] => 0
  | [depth] => depth
  | depths => depths.foldl Nat.max 0 + 1

structure Part where
  depth : Nat
  /-- Everything but a change of modes can be repeated. -/
  repeatable : Bool := true
  deriving DecidableEq, Repr, Inhabited

structure Group where
  modes : Modes := {}
  /-- The depths of the choices before this one. -/
  choices : List Nat := []
  /-- The parts of this choice, the latest first. -/
  parts : List Part := []
  deriving DecidableEq, Repr, Inhabited

namespace Group

def add (g : Group) (depth : Nat) : Group := { g with parts := ⟨depth, true⟩ :: g.parts }

def change (g : Group) (modes : Modes) : Group :=
  { g with modes, parts := ⟨0, false⟩ :: g.parts }

def choose (g : Group) : Group :=
  { g with choices := jointDepth (g.parts.map Part.depth) :: g.choices, parts := [] }

def repeat? (g : Group) : Option Group :=
  match g.parts with
  | ⟨depth, true⟩ :: parts => some { g with parts := ⟨depth + 1, true⟩ :: parts }
  | _ => none

def depth (g : Group) : Nat := jointDepth g.choose.choices

end Group

inductive Opening where
  /-- Just the bracket. -/
  | bracket
  /-- The sign of a complement too. -/
  | caret
  /-- Dashes that stand for themselves. -/
  | dashes
  | done
  deriving DecidableEq, Repr, Inhabited

structure CharSet where
  opening : Opening := .bracket
  /-- The depth of what comes before the latest operator. -/
  left : Option Nat := none
  /-- The depths of the members after it. -/
  members : List Nat := []
  deriving DecidableEq, Repr, Inhabited

namespace CharSet

def add (set : CharSet) (depth : Nat) (opening : Opening := .done) : CharSet :=
  { set with opening, members := depth :: set.members }

def depth (set : CharSet) : Nat :=
  match set.left with
  | none => jointDepth set.members
  | some left => Nat.max left (jointDepth set.members) + 1

def operate (set : CharSet) : CharSet := ⟨.done, some set.depth, []⟩

end CharSet

end ScopedHeap.Log.Pattern
