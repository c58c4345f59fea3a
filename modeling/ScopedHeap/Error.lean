import ScopedHeap.Slot

/-!
# What can go wrong

Every way an operation on a context can fail, and the wording of each.
-/
namespace ScopedHeap

/-- What a record is expected to hold, or found to hold. `object` stands for any record. -/
inductive PayloadKind where
  | raw
  | str
  | text
  | list
  | dict
  | set
  | object
  deriving DecidableEq, Repr, Inhabited

namespace PayloadKind

def name : PayloadKind → String
  | raw => "raw"
  | str => "str"
  | text => "text"
  | list => "list"
  | dict => "dict"
  | set => "set"
  | object => "object"

def all : List PayloadKind := [raw, str, text, list, dict, set, object]

end PayloadKind

inductive Error where
  /-- The request does not even cover the record's header. -/
  | allocationTooSmall (requested header : Nat)
  | outOfMemory (bytes : Nat)
  /-- A list cannot be built, or grow, beyond the list limit. -/
  | capacityOverflow (len max : Nat)
  | indexOutOfRange (index : Int) (len : Nat)
  | keyNotFound
  /-- There is no equality between these two objects. -/
  | comparisonNotImplemented (kind : SlotKind)
  | kindMismatch (expected found : SlotKind)
  | popFromEmpty
  | lengthMismatch (keys values : Nat)
  /-- The record is gone, or never was. -/
  | danglingReference (index generation : Nat)
  | wrongPayload (expected found : PayloadKind)
  | scopeUnderflow
  | scopeMismatch (expected found : ScopeId)
  | refcountUnderflow (index : Nat)
  /-- A record that waits for its destruction takes no further references. -/
  | pendingResurrection (index : Nat)
  | destructorAlreadySet (index : Nat)
  deriving DecidableEq, Repr, Inhabited

namespace Error

def message : Error → String
  | allocationTooSmall requested header =>
    s!"Allocation of {requested} bytes is smaller than the {header} byte header"
  | outOfMemory bytes => s!"Out of memory allocating {bytes} bytes"
  | capacityOverflow len max => s!"List capacity overflow: length {len} cannot grow past {max}"
  | indexOutOfRange index len => s!"Index {index} out of range for length {len}"
  | keyNotFound => "Key not found"
  | comparisonNotImplemented kind => s!"Comparing {kind.name} elements is not implemented"
  | kindMismatch expected found =>
    s!"Element kind mismatch: expected {expected.name}, found {found.name}"
  | popFromEmpty => "Pop from empty list"
  | lengthMismatch keys values => s!"Dict built from {keys} keys and {values} values"
  | danglingReference index generation =>
    s!"Dangling reference to record {index} (generation {generation})"
  | wrongPayload expected found => s!"Expected {expected.name} object, found {found.name}"
  | scopeUnderflow => "Cannot pop the root scope"
  | scopeMismatch expected found =>
    s!"Scope guard for scope {expected} released while scope {found} is active"
  | refcountUnderflow index => s!"Refcount underflow on record {index}"
  | pendingResurrection index =>
    s!"Record {index} is pending destruction and cannot be referenced"
  | destructorAlreadySet index => s!"Record {index} already has a destructor"

end Error

end ScopedHeap
