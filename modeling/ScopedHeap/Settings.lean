import ScopedHeap.Ref

/-!
# Settings of a context
-/
namespace ScopedHeap

structure Settings where
  /-- Cells reserved up front. -/
  initialSlots : Nat := 256
  /-- Longest list that may be built or grown. -/
  maxListLen : Nat := maxList
  /-- Report records that outlive the scope that created them. -/
  auditScopes : Bool := false
  /-- Report records still alive at teardown. -/
  leakReport : Bool := true
  deriving DecidableEq, Repr, Inhabited

/-- The bound on list lengths that is in force. -/
def Settings.listLimit (s : Settings) : Nat := min s.maxListLen maxList

end ScopedHeap
