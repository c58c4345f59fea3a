/-!
# References and scope numbers

A reference names a cell of the record table together with the generation that the cell had
when the record was stored, so that a reference to a record that is gone stays recognisable
after its cell has been taken by another one.
-/
namespace ScopedHeap

structure Ref where
  index : Nat
  generation : Nat
  deriving DecidableEq, Repr, Inhabited

/-- A scope is numbered by its nesting depth. -/
abbrev ScopeId := Nat

/-- Home of the records that are never destroyed. -/
def staticScope : ScopeId := 0

/-- The scope that is open for the whole life of a context. -/
def rootScope : ScopeId := 1

/-- Cell indices and generations are 32-bit words. -/
def wordBound : Nat := 0x100000000

/-- Sizes and counts are 64-bit words. -/
def sizeBound : Nat := 0x10000000000000000

/-- The largest distance between two addresses, a signed 64-bit word. -/
def maxOffset : Nat := 0x7FFFFFFFFFFFFFFF

/-- Bytes taken by the header of a record; no allocation is smaller. -/
def headerSize : Nat := 72

def slotSize : Nat := 16

def cellSize : Nat := 160

/-- The largest number of slots that any list may hold. -/
def maxList : Nat := maxOffset / slotSize

end ScopedHeap
