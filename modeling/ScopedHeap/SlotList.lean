import ScopedHeap.Error
import ScopedHeap.Memory

/-!
# Lists, dicts and sets of slots

A list holds slots of one kind in a buffer that doubles when it is full and never grows past
the list limit. A dict is a list of keys beside a list of values; a set is a list of elements,
repetitions included. Nothing here touches reference counts.
-/
namespace ScopedHeap

structure SlotList where
  kind : SlotKind
  items : List Slot
  /-- Slots for which room has been made. -/
  capacity : Nat
  deriving DecidableEq, Repr, Inhabited

namespace SlotList

def length (l : SlotList) : Nat := l.items.length

def isEmpty (l : SlotList) : Bool := l.items.isEmpty

def size (l : SlotList) : Nat := l.capacity * slotSize

/-- A list over the given slots with room for just these, and for one if there are none. -/
def ofSlots (limit : Nat) (grant : Grant) (kind : SlotKind) (slots : List Slot) :
    Except Error SlotList :=
  if limit < slots.length then
    .error (.capacityOverflow slots.length limit)
  else
    match slots.find? (·.kind != kind) with
    | some stranger => .error (.kindMismatch kind stranger.kind)
    | none =>
      let capacity := max slots.length 1
      if grant.covers (capacity * slotSize) then
        .ok ⟨kind, slots, capacity⟩
      else
        .error (.outOfMemory (capacity * slotSize))

theorem ofSlots_eq_ok {limit : Nat} {grant : Grant} {kind : SlotKind} {slots : List Slot}
    {l : SlotList} (h : ofSlots limit grant kind slots = .ok l) :
    l = ⟨kind, slots, max slots.length 1⟩ := by
  unfold ofSlots at h
  split at h
  · simp at h
  · split at h
    · simp at h
    · simp only at h
      split at h
      · exact (Except.ok.inj h).symm
      · simp at h

theorem items_ofSlots {limit : Nat} {grant : Grant} {kind : SlotKind} {slots : List Slot}
    {l : SlotList} (h : ofSlots limit grant kind slots = .ok l) : l.items = slots := by
  rw [ofSlots_eq_ok h]

def checkKind (l : SlotList) (v : Slot) : Except Error Unit :=
  if v.kind = l.kind then .ok () else .error (.kindMismatch l.kind v.kind)

/-- Makes room for one more slot, doubling the capacity of a full list. -/
def reserve (limit : Nat) (grant : Grant) (l : SlotList) : Except Error SlotList :=
  if l.length < l.capacity then
    .ok l
  else if limit / 2 ≤ l.capacity then
    .error (.capacityOverflow l.length limit)
  else
    let grown := l.capacity * 2
    if grant.covers (grown * slotSize) then
      .ok { l with capacity := grown }
    else
      .error (.outOfMemory (grown * slotSize))

theorem reserve_eq_ok {limit : Nat} {grant : Grant} {l k : SlotList}
    (h : l.reserve limit grant = .ok k) :
    k = l ∧ l.length < l.capacity ∨
      k = { l with capacity := l.capacity * 2 } ∧ l.capacity ≤ l.length ∧
        l.capacity < limit / 2 ∧ l.capacity * 2 * slotSize ≤ maxOffset := by
  unfold reserve at h
  split at h
  · rename_i room
    exact Or.inl ⟨(Except.ok.inj h).symm, room⟩
  · rename_i full
    split at h
    · simp at h
    · rename_i within
      simp only at h
      split at h
      · rename_i granted
        exact Or.inr ⟨(Except.ok.inj h).symm, by omega, by omega, Grant.le_of_covers granted⟩
      · simp at h

theorem items_reserve {limit : Nat} {grant : Grant} {l k : SlotList}
    (h : l.reserve limit grant = .ok k) : k.items = l.items := by
  rcases reserve_eq_ok h with ⟨rfl, _⟩ | ⟨rfl, _⟩ <;> rfl

def push (l : SlotList) (v : Slot) : SlotList := { l with items := l.items ++ [v] }

def pop (l : SlotList) : Except Error (Slot × SlotList) :=
  match l.items.getLast? with
  | some v => .ok (v, { l with items := l.items.dropLast })
  | none => .error .popFromEmpty

/-- A negative index counts from the end. -/
def position (l : SlotList) (index : Int) : Except Error Nat :=
  let resolved := if index < 0 then index + l.length else index
  if 0 ≤ resolved ∧ resolved < l.length then
    .ok resolved.toNat
  else
    .error (.indexOutOfRange index l.length)

def slotAt (l : SlotList) (index : Int) : Except Error Slot := do
  let i ← l.position index
  match l.items[i]? with
  | some v => .ok v
  | none => .error (.indexOutOfRange index l.length)

def replace (l : SlotList) (i : Nat) (v : Slot) : SlotList := { l with items := l.items.set i v }

end SlotList

structure SlotDict where
  keys : SlotList
  values : SlotList
  deriving DecidableEq, Repr, Inhabited

namespace SlotDict

def length (d : SlotDict) : Nat := d.keys.length

def isEmpty (d : SlotDict) : Bool := d.keys.isEmpty

def size (d : SlotDict) : Nat := (d.keys.capacity + d.values.capacity) * slotSize

def ofSlots (limit : Nat) (keyGrant valueGrant : Grant) (keyKind valueKind : SlotKind)
    (keys values : List Slot) : Except Error SlotDict :=
  if keys.length ≠ values.length then
    .error (.lengthMismatch keys.length values.length)
  else do
    let keyList ← SlotList.ofSlots limit keyGrant keyKind keys
    let valueList ← SlotList.ofSlots limit valueGrant valueKind values
    return ⟨keyList, valueList⟩

end SlotDict

structure SlotSet where
  elements : SlotList
  deriving DecidableEq, Repr, Inhabited

namespace SlotSet

def length (s : SlotSet) : Nat := s.elements.length

def isEmpty (s : SlotSet) : Bool := s.elements.isEmpty

def size (s : SlotSet) : Nat := s.elements.size

end SlotSet

end ScopedHeap
