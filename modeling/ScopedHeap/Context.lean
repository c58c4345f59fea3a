import ScopedHeap.Notice
import ScopedHeap.ScopeStack
import ScopedHeap.Settings
import ScopedHeap.Table

/-!
# Contexts

A context owns one record table and one stack of scopes. Operations on it are programs in `Act`:
they work on the context, write notices to a journal, and may fail. What was done before a failure
stays done, so an operation that is to leave no trace has to undo its own work.

The counters of a context only ever go up, and like the counts of records they are natural numbers
without a bound: no counter wraps around or overflows a word of 64 bits.
-/
namespace ScopedHeap

structure Counters where
  allocated : Nat := 0
  destroyed : Nat := 0
  /-- Releases that were put off to an enclosing scope. -/
  deferred : Nat := 0
  /-- Records given up by teardown. -/
  leaked : Nat := 0
  deriving DecidableEq, Repr, Inhabited

structure Stats where
  live : Nat
  pending : Nat
  allocated : Nat
  destroyed : Nat
  deferred : Nat
  leaked : Nat
  depth : Nat
  deriving DecidableEq, Repr, Inhabited

structure Context where
  table : Table
  scopes : ScopeStack
  settings : Settings
  counters : Counters
  falseText : Ref
  trueText : Ref
  deriving Repr, Inhabited

namespace Context

def new (settings : Settings) : Context where
  table :=
    { Table.empty with
      cells := #[⟨0, some ⟨.forever, .text "false"⟩⟩, ⟨0, some ⟨.forever, .text "true"⟩⟩]
      occupied := 2 }
  scopes := .root
  settings := settings
  counters := {}
  falseText := ⟨0, 0⟩
  trueText := ⟨1, 0⟩

def current (cx : Context) : ScopeId := cx.scopes.current

def listLimit (cx : Context) : Nat := cx.settings.listLimit

def find (cx : Context) (r : Ref) : Except Error Record := cx.table.find r

def header (cx : Context) (r : Ref) : Except Error Header := return (← cx.find r).header

def payload (cx : Context) (r : Ref) : Except Error Payload := return (← cx.find r).payload

def list (cx : Context) (r : Ref) : Except Error SlotList := do (← cx.payload r).asList

def dict (cx : Context) (r : Ref) : Except Error SlotDict := do (← cx.payload r).asDict

def set (cx : Context) (r : Ref) : Except Error SlotSet := do (← cx.payload r).asSet

def boolText (cx : Context) (b : Bool) : Ref := if b then cx.trueText else cx.falseText

/-- The record exists and does not wait for its destruction. -/
def isLive (cx : Context) (r : Ref) : Bool := (cx.table.find? r).any (·.header.state ≠ .pending)

def isPending (cx : Context) (r : Ref) : Bool := (cx.table.find? r).any (·.header.state = .pending)

def liveIn (cx : Context) (scope : ScopeId) : List Ref :=
  cx.table.live.filter fun r => (cx.table.find? r).any (·.header.creationScope = scope)

def stats (cx : Context) : Stats where
  live := cx.table.liveCount
  pending := cx.scopes.pending
  allocated := cx.counters.allocated
  destroyed := cx.counters.destroyed
  deferred := cx.counters.deferred
  leaked := cx.counters.leaked
  depth := cx.scopes.depth

end Context

/-- A context with the notices written so far, latest first, and with what the allocator will say.
-/
structure Workspace where
  context : Context
  journal : List Notice
  grants : Grants
  deriving Inhabited

abbrev Act := EStateM Error Workspace

namespace Act

def context : Act Context := return (← get).context

def read {α : Type} (f : Context → Except Error α) : Act α := fun w =>
  match f w.context with
  | .ok a => .ok a w
  | .error e => .error e w

def onTable {α : Type} (f : Table → Except Error (α × Table)) : Act α := fun w =>
  match f w.context.table with
  | .ok (a, table) => .ok a { w with context := { w.context with table } }
  | .error e => .error e w

def onScopes {α : Type} (f : ScopeStack → Except Error (α × ScopeStack)) : Act α := fun w =>
  match f w.context.scopes with
  | .ok (a, scopes) => .ok a { w with context := { w.context with scopes } }
  | .error e => .error e w

def nextGrant : Act Grant := do
  let grant := (← get).grants 0
  modify fun w => { w with grants := w.grants.rest }
  return grant

def notify (n : Notice) : Act Unit := modify fun w => { w with journal := n :: w.journal }

def modifyTable (f : Table → Table) : Act Unit :=
  modify fun w => { w with context := { w.context with table := f w.context.table } }

def modifyScopes (f : ScopeStack → ScopeStack) : Act Unit :=
  modify fun w => { w with context := { w.context with scopes := f w.context.scopes } }

def modifyCounters (f : Counters → Counters) : Act Unit :=
  modify fun w => { w with context := { w.context with counters := f w.context.counters } }

def modifyRecord (r : Ref) (f : Record → Record) : Act Unit := modifyTable (·.modifyAt r.index f)

end Act

end ScopedHeap
