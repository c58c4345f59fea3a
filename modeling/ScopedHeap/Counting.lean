import ScopedHeap.Context

/-!
# Reference counts and release

A stack reference counts a record of the running scope or of a deeper one; records of enclosing
scopes are borrowed. A heap reference counts every record that is not static. When a count drops to
zero the record leaves the live list. It is then taken out of the table, if its home is the running
scope or a deeper one, or put in the queue of its home scope.

Taking a record out of the table is all that happens to it here. What its hook is to do is still
ahead, which is why a decrement may hand back a `Doomed` record.
-/
namespace ScopedHeap

/-- Whether references of a family to a record are counted while scope `current` runs. -/
def Family.tracks (family : Family) (h : Header) (current : ScopeId) : Bool :=
  match family with
  | .stack => h.creationScope ≠ staticScope && current ≤ h.creationScope
  | .heap => h.creationScope ≠ staticScope

/-- A record that has been taken out of the table and whose hook has not run yet. -/
structure Doomed where
  ref : Ref
  record : Record
  deriving Inhabited

namespace Act

def increment (family : Family) (r : Ref) : Act Unit := do
  let current := (← context).current
  let header ← read (·.header r)
  if family.tracks header current then
    if header.state = .pending then
      throw (.pendingResurrection r.index)
    modifyRecord r (Record.setRefcount (header.refcount + 1))
    notify (.incremented r family (header.refcount + 1))

def unearth (r : Ref) : Act Doomed := return ⟨r, ← onTable (·.remove r)⟩

/-- Decides on a record whose count has just dropped to zero. -/
def release (r : Ref) : Act (Option Doomed) := do
  modifyTable (·.detach r.index)
  let current := (← context).current
  let header ← read (·.header r)
  if current ≤ header.creationScope then
    return some (← unearth r)
  modifyRecord r (Record.setState .pending)
  let atHome ← onScopes fun s => .ok (s.defer header.home r)
  if !atHome then
    notify (.requeued r header.home.scope)
  modifyCounters fun c => { c with deferred := c.deferred + 1 }
  notify (.deferred r header.creationScope current)
  return none

def decrement (family : Family) (keep : Bool) (r : Ref) : Act (Option Doomed) := do
  let current := (← context).current
  let header ← read (·.header r)
  if !family.tracks header current then
    return none
  if header.refcount = 0 then
    throw (.refcountUnderflow r.index)
  let count := header.refcount - 1
  modifyRecord r (Record.setRefcount count)
  notify (.decremented r family count)
  if count = 0 && !keep then release r else return none

def bury (r : Ref) (scope : ScopeId) (hooked : Bool) : Act Unit := do
  modifyCounters fun c => { c with destroyed := c.destroyed + 1 }
  notify (.destroyed r scope hooked)

end Act

end ScopedHeap
