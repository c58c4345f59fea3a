import ScopedHeap.Ref

/-!
# Container slots

A slot holds a nullable reference (to any record, to a byte string, or to a text) or a scalar.
Two notions of equality live here: `DecidableEq`, which tells bit patterns apart, and
`Slot.same`, which compares floats numerically and references by name. Neither looks into
the record table.
-/
namespace ScopedHeap

inductive SlotKind where
  | object
  | str
  | text
  | byte
  | float
  | uint
  | int
  deriving DecidableEq, Repr, Inhabited

namespace SlotKind

def name : SlotKind → String
  | object => "object"
  | str => "str"
  | text => "text"
  | byte => "byte"
  | float => "float"
  | uint => "uint"
  | int => "int"

def isRef : SlotKind → Bool
  | object | str | text => true
  | byte | float | uint | int => false

def all : List SlotKind := [object, str, text, byte, float, uint, int]

end SlotKind

/-- A binary64 number, kept as its bit pattern. -/
structure Binary64 where
  bits : UInt64
  deriving DecidableEq, Repr, Inhabited

namespace Binary64

def magnitude (x : Binary64) : UInt64 := x.bits &&& 0x7fffffffffffffff

def isNaN (x : Binary64) : Bool := x.magnitude > 0x7ff0000000000000

def isZero (x : Binary64) : Bool := x.magnitude == 0

/-- Numeric equality: a NaN equals nothing, and the two zeros are equal. -/
def numEq (x y : Binary64) : Bool :=
  !x.isNaN && !y.isNaN && (x.bits == y.bits || (x.isZero && y.isZero))

end Binary64

inductive Slot where
  | object (r : Option Ref)
  | str (r : Option Ref)
  | text (r : Option Ref)
  | byte (b : UInt8)
  | float (x : Binary64)
  | uint (n : UInt64)
  | int (i : Int64)
  deriving DecidableEq, Repr, Inhabited

namespace Slot

def kind : Slot → SlotKind
  | object _ => .object
  | str _ => .str
  | text _ => .text
  | byte _ => .byte
  | float _ => .float
  | uint _ => .uint
  | int _ => .int

/-- The record a slot refers to; `none` for a null slot and for a scalar. -/
def ref? : Slot → Option Ref
  | object r | str r | text r => r
  | byte _ | float _ | uint _ | int _ => none

def asInt? : Slot → Option Int64
  | int i => some i
  | _ => none

def asUInt? : Slot → Option UInt64
  | uint n => some n
  | _ => none

def asFloat? : Slot → Option Binary64
  | float x => some x
  | _ => none

/-- Equality by value: floats numerically, references by name. -/
def same : Slot → Slot → Bool
  | float x, float y => x.numEq y
  | a, b => a == b

end Slot

end ScopedHeap
