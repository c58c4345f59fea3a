import ScopedHeap.Command

/-!
# Notices

What a context reports about its work, and how each notice is presented: its severity, its topic,
its message and its named fields.
-/
namespace ScopedHeap

/-- From the most to the least detailed. -/
inductive Severity where
  | trace
  | debug
  | info
  | warn
  | error
  deriving DecidableEq, Repr, Inhabited

namespace Severity

def rank : Severity → Nat
  | trace => 0
  | debug => 1
  | info => 2
  | warn => 3
  | error => 4

def name : Severity → String
  | trace => "TRACE"
  | debug => "DEBUG"
  | info => "INFO"
  | warn => "WARN"
  | error => "ERROR"

end Severity

inductive Topic where
  | allocator
  | scope
  | refcount
  | containers
  | runtime
  deriving DecidableEq, Repr, Inhabited

def Topic.name : Topic → String
  | allocator => "allocator"
  | scope => "scope"
  | refcount => "refcount"
  | containers => "containers"
  | runtime => "runtime"

inductive FieldValue where
  | number (n : Nat)
  | flag (b : Bool)
  /-- Text that is quoted in a line. -/
  | quoted (s : String)
  /-- Text that stands in a line as it is. -/
  | plain (s : String)
  deriving DecidableEq, Repr, Inhabited

def Family.name : Family → String
  | stack => "Stack"
  | heap => "Heap"

inductive Notice where
  | allocated (record : Ref) (scope : ScopeId) (size : Nat)
  | destroyed (record : Ref) (scope : ScopeId) (hooked : Bool)
  | deferred (record : Ref) (home current : ScopeId)
  /-- The home level of a deferred record is gone, and a successor takes the record. -/
  | requeued (record : Ref) (scope : ScopeId)
  | incremented (record : Ref) (family : Family) (count : Nat)
  | decremented (record : Ref) (family : Family) (count : Nat)
  | pushed (list : Ref)
  | popped (list : Ref)
  | rollbackSkipped (record : Ref) (error : Error)
  | scopeEntered (scope : ScopeId)
  | scopeExited (scope : ScopeId) (drained : Nat)
  | scopeEscaped (scope : ScopeId) (escaped : Nat)
  | scopeClean (scope : ScopeId)
  | scopesOpen (depth : Nat)
  | leaked (record : Ref) (scope : ScopeId) (refcount : Nat)
  | tornDown (allocated destroyed leaked : Nat)
  | fatal (error : Error)
  deriving DecidableEq, Repr

namespace Notice

def severity : Notice → Severity
  | allocated .. | destroyed .. | deferred .. | incremented .. | decremented .. | pushed _
  | popped _ => .trace
  | requeued .. | rollbackSkipped .. | scopeEntered _ | scopeExited .. | scopeClean _ => .debug
  | tornDown .. => .info
  | scopeEscaped .. | scopesOpen _ | leaked .. => .warn
  | fatal _ => .error

def topic : Notice → Topic
  | allocated .. | destroyed .. => .allocator
  | deferred .. | requeued .. | incremented .. | decremented .. => .refcount
  | pushed _ | popped _ | rollbackSkipped .. => .containers
  | scopeEntered _ | scopeExited .. | scopeEscaped .. | scopeClean _ | scopesOpen _ => .scope
  | leaked .. | tornDown .. | fatal _ => .runtime

def message : Notice → String
  | allocated .. => "Record allocated"
  | destroyed .. => "Record destroyed"
  | deferred .. => "Destruction deferred to home scope"
  | requeued .. => "Home scope level exited; queued on its successor"
  | incremented .. => "inc"
  | decremented .. => "dec"
  | pushed _ => "push"
  | popped _ => "pop"
  | rollbackSkipped .. => "Retain rollback skipped"
  | scopeEntered _ => "Scope entered"
  | scopeExited .. => "Scope exited"
  | scopeEscaped .. => "Records outlive the scope that created them"
  | scopeClean _ => "Scope released all of its records"
  | scopesOpen _ => "Scopes still open at teardown"
  | leaked .. => "Record still live at teardown"
  | tornDown .. => "Context torn down"
  | fatal _ => "fatal runtime error"

def fields : Notice → List (String × FieldValue)
  | allocated record scope size =>
    [("event", .quoted "allocation"), ("record", .number record.index), ("scope", .number scope),
      ("size_bytes", .number size)]
  | destroyed record scope hooked =>
    [("event", .quoted "destruction"), ("record", .number record.index), ("scope", .number scope),
      ("hooked", .flag hooked)]
  | deferred record home current =>
    [("event", .quoted "deferral"), ("record", .number record.index), ("home", .number home),
      ("current", .number current)]
  | requeued record scope => [("record", .number record.index), ("scope", .number scope)]
  | incremented record family count | decremented record family count =>
    [("record", .number record.index), ("kind", .plain family.name), ("count", .number count)]
  | pushed list | popped list => [("list", .number list.index)]
  | rollbackSkipped record error =>
    [("record", .number record.index), ("error", .plain error.message)]
  | scopeEntered scope => [("event", .quoted "scope_push"), ("scope", .number scope)]
  | scopeExited scope drained =>
    [("event", .quoted "scope_pop"), ("scope", .number scope), ("drained", .number drained)]
  | scopeEscaped scope escaped => [("scope", .number scope), ("escaped", .number escaped)]
  | scopeClean scope => [("scope", .number scope)]
  | scopesOpen depth => [("depth", .number depth)]
  | leaked record scope refcount =>
    [("event", .quoted "leak"), ("record", .number record.index), ("scope", .number scope),
      ("refcount", .number refcount)]
  | tornDown made gone lost =>
    [("allocated", .number made), ("destroyed", .number gone), ("leaked", .number lost)]
  | fatal error => [("error", .plain error.message)]

end Notice

end ScopedHeap
