import ScopedHeap.Ref

/-!
# Memory

How much memory there is depends on the machine and on what else runs there. What the allocator says
is therefore given from outside, one answer for each request in turn, and nothing is assumed of it:
a request may be refused that was granted a moment before.
-/
namespace ScopedHeap

/-- The answer to one request, by the number of bytes that it may be for. -/
abbrev Grant := Nat → Bool

/-- No bytes are had without asking, and more of them than addresses can tell apart are refused
without asking. -/
def Grant.covers (grant : Grant) (bytes : Nat) : Bool :=
  bytes = 0 || bytes ≤ maxOffset && grant bytes

theorem Grant.le_of_covers {grant : Grant} {bytes : Nat} (h : grant.covers bytes = true) :
    bytes ≤ maxOffset := by
  unfold covers at h
  grind

theorem Grant.eq_false_of_covers {grant : Grant} {bytes : Nat} (h : grant.covers bytes = false)
    (within : bytes ≤ maxOffset) : grant bytes = false := by
  unfold covers at h
  grind

/-- The answers to the requests of one operation. -/
abbrev Grants := Nat → Grant

namespace Grants

def ample : Grants := fun _ _ => true

def rest (grants : Grants) : Grants := fun k => grants (k + 1)

/-- A request for so many bytes is refused, although addresses would reach. -/
def Refuses (grants : Grants) (bytes : Nat) : Prop :=
  bytes ≤ maxOffset ∧ ∃ k, grants k bytes = false

end Grants

/-- The answers that are given to one operation after another. -/
abbrev Memory := Nat → Grants

namespace Memory

def ample : Memory := fun _ => .ample

def rest (memory : Memory) : Memory := fun n => memory (n + 1)

end Memory

end ScopedHeap
