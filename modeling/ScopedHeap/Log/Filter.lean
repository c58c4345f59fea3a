import ScopedHeap.Log.Directive

/-!
# Filters

A filter is a list of directives. Of those that speak of a notice the most special one decides
whether it passes, and of equals the later one. What no directive speaks of is held back.
-/
namespace ScopedHeap.Log

structure Filter where
  directives : List Directive
  deriving DecidableEq, Repr, Inhabited

namespace Filter

def parse? (text : String) : Option Filter := do
  let parts := (text.splitOn ",").filter (· ≠ "")
  let directives ← parts.mapM fun part => Directive.parse? part.toList
  return ⟨directives⟩

def ofLevel (level : Severity) : Filter :=
  ⟨["scoperc", "allocator", "scope", "refcount", "containers", "runtime"].map fun target =>
    ⟨some target.toList, none, none, some level⟩⟩

/-- Of two directives the one that comes first, and the second of equals. -/
def first (best : Option Directive) (next : Directive) : Option Directive :=
  match best with
  | some d => if d.outranks next then some d else some next
  | none => some next

def directive? (f : Filter) (n : Notice) : Option Directive :=
  (f.directives.filter (·.covers n)).foldl first none

def passes (f : Filter) (n : Notice) : Bool :=
  match (f.directive? n).bind Directive.level with
  | some level => level.rank ≤ n.severity.rank
  | none => false

end Filter

end ScopedHeap.Log
