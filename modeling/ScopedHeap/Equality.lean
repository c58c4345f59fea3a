import ScopedHeap.Table

/-!
# Equality of slots and search

Scalars compare by value; byte strings and texts by content. Generic objects compare by name and
then, if both hold byte strings or both hold texts, by content: any other pair of distinct objects
has no equality, and asking is an error.
-/
namespace ScopedHeap

namespace Table

/-- Equality of what two distinct records hold, for slots of one of the reference kinds. -/
def contentEq (kind : SlotKind) (a b : Payload) : Except Error Bool :=
  match kind with
  | .str =>
    match a, b with
    | .str x, .str y => .ok (x == y)
    | .str _, other | other, _ => .error (.wrongPayload .str other.kind)
  | .text =>
    match a, b with
    | .text x, .text y => .ok (x == y)
    | .text _, other | other, _ => .error (.wrongPayload .text other.kind)
  | _ =>
    match a, b with
    | .str x, .str y => .ok (x == y)
    | .text x, .text y => .ok (x == y)
    | _, _ => .error (.comparisonNotImplemented kind)

/-- Null equals only null, and a reference equals itself even when its record is gone. -/
def refEq (t : Table) (kind : SlotKind) : Option Ref → Option Ref → Except Error Bool
  | none, none => .ok true
  | some a, some b =>
    if a = b then
      .ok true
    else do
      let left ← t.find a
      let right ← t.find b
      contentEq kind left.payload right.payload
  | _, _ => .ok false

def slotEq (t : Table) : Slot → Slot → Except Error Bool
  | .byte x, .byte y => .ok (x == y)
  | .float x, .float y => .ok (x.numEq y)
  | .uint x, .uint y => .ok (x == y)
  | .int x, .int y => .ok (x == y)
  | .str x, .str y => t.refEq .str x y
  | .text x, .text y => t.refEq .text x y
  | .object x, .object y => t.refEq .object x y
  | a, b => .error (.kindMismatch a.kind b.kind)

/-- Position of the first slot equal to `v`; the comparisons go from the front and the first one
that fails ends the search. -/
def scan (t : Table) (v : Slot) : List Slot → Except Error (Option Nat)
  | [] => .ok none
  | item :: rest => do
    if ← t.slotEq item v then
      return some 0
    else
      return (← t.scan v rest).map (· + 1)

def search (t : Table) (l : SlotList) (v : Slot) : Except Error (Option Nat) := do
  l.checkKind v
  t.scan v l.items

def strEq (t : Table) : Option Ref → Option Ref → Except Error Bool
  | none, none => .ok true
  | some a, some b =>
    if a = b then
      .ok true
    else do
      let left ← (← t.find a).payload.asStr
      let right ← (← t.find b).payload.asStr
      return left == right
  | _, _ => .ok false

end Table

end ScopedHeap
