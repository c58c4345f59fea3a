import ScopedHeap.Record
import ScopedHeap.Total

/-!
# The stack of scopes

Each open scope has a level with a first-in first-out queue of the records that wait for its exit.
The root level is always there, so the stack is an active level over the levels that enclose it.
Levels are numbered through by serial numbers, which have no bound here.
-/
namespace ScopedHeap

structure Level where
  id : ScopeId
  serial : Nat
  /-- Records waiting for this level to exit, oldest first. -/
  queue : List Ref
  deriving DecidableEq, Repr, Inhabited

structure ScopeStack where
  active : Level
  /-- The enclosing levels, innermost first. -/
  outer : List Level
  nextSerial : Nat
  deriving DecidableEq, Repr, Inhabited

namespace ScopeStack

def root : ScopeStack := ⟨⟨rootScope, 0, []⟩, [], 1⟩

def current (s : ScopeStack) : ScopeId := s.active.id

def depth (s : ScopeStack) : Nat := s.outer.length + 1

/-- All levels, root first. -/
def levels (s : ScopeStack) : List Level := (s.active :: s.outer).reverse

def activeHome (s : ScopeStack) : Home := ⟨s.active.id, s.active.serial⟩

def pending (s : ScopeStack) : Nat := total (·.queue.length) (s.active :: s.outer)

def push (s : ScopeStack) : ScopeStack where
  active := ⟨s.current + 1, s.nextSerial, []⟩
  outer := s.active :: s.outer
  nextSerial := s.nextSerial + 1

def pop (s : ScopeStack) : Except Error (Level × ScopeStack) :=
  match s.outer with
  | [] => .error .scopeUnderflow
  | level :: rest => .ok (s.active, { s with active := level, outer := rest })

def enqueue (r : Ref) (level : Level) : Level := { level with queue := level.queue ++ [r] }

/-- Appends a record to the queue of the level at its home's position, or of the active level if
the stack is not that deep. The answer tells whether that is the very level the record was
allocated in, and not a successor at the same position. -/
def defer (s : ScopeStack) (home : Home) (r : Ref) : Bool × ScopeStack :=
  match s.depth - 1 - (home.scope - 1) with
  | 0 => (s.active.serial = home.serial, { s with active := enqueue r s.active })
  | up + 1 =>
    (s.outer[up]?.any (·.serial = home.serial), { s with outer := s.outer.modify up (enqueue r) })

/-- Takes the oldest record off the queue of the active level, if any waits there. -/
def nextPending (s : ScopeStack) : Option Ref × ScopeStack :=
  match s.active.queue with
  | [] => (none, s)
  | r :: rest => (some r, { s with active := { s.active with queue := rest } })

end ScopeStack

end ScopedHeap
