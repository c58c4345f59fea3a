import ScopedHeap.Command

/-!
# Records

A record is a payload with a header: reference count, home scope, destructor hook, and the
links of the list of live records, which runs through the headers.

Reference counts and serial numbers are natural numbers without a bound. Where they are kept in
words of 64 bits, what is said here holds as long as none of them has been raised so often that it
leaves its word.
-/
namespace ScopedHeap

/-- The level a record was allocated in: its position in the stack of scopes, and the serial
number that tells it from earlier and later levels at the same position. -/
structure Home where
  scope : ScopeId
  serial : Nat
  deriving DecidableEq, Repr, Inhabited

inductive State where
  | live
  /-- The count has dropped to zero and the record waits for its home scope to exit. -/
  | pending
  /-- Exempt from counting and destruction. -/
  | static
  deriving DecidableEq, Repr, Inhabited

def State.name : State → String
  | live => "live"
  | pending => "pending"
  | static => "static"

structure Header where
  prev : Option Nat
  next : Option Nat
  refcount : Nat
  creationScope : ScopeId
  home : Home
  state : State
  hook : Option Hook
  deriving Repr, Inhabited

namespace Header

def fresh (scope : ScopeId) (home : Home) : Header where
  prev := none
  next := none
  refcount := 1
  creationScope := scope
  home := home
  state := .live
  hook := none

def forever : Header where
  prev := none
  next := none
  refcount := 1
  creationScope := staticScope
  home := ⟨staticScope, 0⟩
  state := .static
  hook := none

def isStatic (h : Header) : Bool := h.creationScope == staticScope

private def linkText : Option Nat → String
  | none => "None"
  | some index => s!"Some({index})"

private def stateText : State → String
  | .live => "Live"
  | .pending => "Pending"
  | .static => "Static"

def describe (h : Header) : String :=
  "ObjectHeader \x7b prev: " ++ linkText h.prev ++ ", next: " ++ linkText h.next
    ++ s!", refcount: {h.refcount}, creation_scope: {h.creationScope}"
    ++ s!", queue_target: QueueTarget \x7b scope: {h.home.scope}, serial: {h.home.serial} \x7d"
    ++ ", state: " ++ stateText h.state ++ s!", destructor: {h.hook.isSome} \x7d"

end Header

structure Record where
  header : Header
  payload : Payload
  deriving Repr, Inhabited

namespace Record

def setPrev (link : Option Nat) (r : Record) : Record :=
  { r with header := { r.header with prev := link } }

def setNext (link : Option Nat) (r : Record) : Record :=
  { r with header := { r.header with next := link } }

def setRefcount (count : Nat) (r : Record) : Record :=
  { r with header := { r.header with refcount := count } }

def setState (state : State) (r : Record) : Record :=
  { r with header := { r.header with state := state } }

def setHook (hook : Hook) (r : Record) : Record :=
  { r with header := { r.header with hook := some hook } }

def setPayload (payload : Payload) (r : Record) : Record := { r with payload := payload }

end Record

end ScopedHeap
