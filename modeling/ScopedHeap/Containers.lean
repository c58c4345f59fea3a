import ScopedHeap.Allocation
import ScopedHeap.Equality

/-!
# Containers

A container counts one heap reference for each non-null reference slot. Whatever goes into a
container is counted before it is stored, and what it replaces is given up afterwards. A decrement
made here may doom a record, which is handed back for its hook to be run.
-/
namespace ScopedHeap

namespace Act

/-- A reference slot has to refer to a record that its kind may hold. -/
def checkSlot (cx : Context) : Slot → Except Error Unit
  | .object (some r) => do
    let _ ← cx.find r
    return ()
  | .str (some r) => do
    let _ ← (← cx.payload r).asStr
    return ()
  | .text (some r) => do
    let _ ← (← cx.payload r).asText
    return ()
  | _ => .ok ()

/-- Takes back counts that have just been added. -/
def unretain : List Ref → Act Unit
  | [] => return ()
  | r :: rest => do
    try
      let _ ← decrement .heap true r
    catch e =>
      notify (.rollbackSkipped r e)
    unretain rest

/-- Counts each of `refs`; if one of them refuses, `done` and those counted here are taken back. -/
def retainFrom (done : List Ref) : List Ref → Act Unit
  | [] => return ()
  | r :: rest => do
    try
      increment .heap r
    catch e =>
      unretain done
      throw e
    retainFrom (done ++ [r]) rest

/-- Counts a heap reference for every reference slot, or for none of them. -/
def retain (slots : List Slot) : Act Unit := do
  read fun cx => slots.forM (checkSlot cx)
  retainFrom [] (slots.filterMap Slot.ref?)

def allocContainer (payload : Payload) (slots : List Slot) : Act Ref := do
  retain slots
  let r ←
    try
      allocRecord payload
    catch e =>
      unretain (slots.filterMap Slot.ref?)
      throw e
  installHook r (.releaseSlots payload.kind)
  return r

def dropSlot (v : Slot) : Act (Option Doomed) :=
  match v.ref? with
  | some r => decrement .heap false r
  | none => return none

def newList (kind : SlotKind) (slots : List Slot) : Act Ref := do
  let grant ← nextGrant
  let l ← read fun cx => SlotList.ofSlots cx.listLimit grant kind slots
  allocContainer (.list l) slots

def updateList {α : Type} (r : Ref) (f : SlotList → Except Error (α × SlotList)) : Act α :=
  updatePayload r fun payload => do
    let (a, l) ← f (← payload.asList)
    return (a, .list l)

def reserveList (r : Ref) (limit : Nat) : Act Unit := do
  let grant ← nextGrant
  updateList r fun l => return ((), ← l.reserve limit grant)

def listPush (r : Ref) (v : Slot) : Act Unit := do
  read fun cx => do (← cx.list r).checkKind v
  read fun cx => checkSlot cx v
  reserveList r (← context).listLimit
  retain [v]
  updateList r fun l => .ok ((), l.push v)
  notify (.pushed r)

def listPop (r : Ref) : Act (Slot × Option Doomed) := do
  let v ← updateList r SlotList.pop
  return (v, ← dropSlot v)

def listSet (r : Ref) (index : Int) (v : Slot) : Act (Option Doomed) := do
  let i ← read fun cx => do
    let l ← cx.list r
    l.checkKind v
    l.position index
  retain [v]
  let old ← updateList r fun l => .ok (l.items[i]?, l.replace i v)
  old.elim (return none) dropSlot

def newDict (keyKind valueKind : SlotKind) (keys values : List Slot) : Act Ref := do
  let keyGrant ← nextGrant
  let valueGrant ← nextGrant
  let d ← read fun cx =>
    SlotDict.ofSlots cx.listLimit keyGrant valueGrant keyKind valueKind keys values
  allocContainer (.dict d) (keys ++ values)

def updateDict {α : Type} (r : Ref) (f : SlotDict → Except Error (α × SlotDict)) : Act α :=
  updatePayload r fun payload => do
    let (a, d) ← f (← payload.asDict)
    return (a, .dict d)

def dictReplace (r : Ref) (i : Nat) (v : Slot) : Act (Option Doomed) := do
  retain [v]
  let old ← updateDict r fun d =>
    .ok (d.values.items[i]?, { d with values := d.values.replace i v })
  old.elim (return none) dropSlot

/-- Both lists make room for one more slot. If the values are refused theirs, the keys keep what
they have got. -/
def reserveDict (r : Ref) (limit : Nat) : Act Unit := do
  let keyGrant ← nextGrant
  updateDict r fun d => return ((), { d with keys := ← d.keys.reserve limit keyGrant })
  let valueGrant ← nextGrant
  updateDict r fun d => return ((), { d with values := ← d.values.reserve limit valueGrant })

/-- There has to be room before any count moves. -/
def dictAppend (r : Ref) (key v : Slot) : Act Unit := do
  reserveDict r (← context).listLimit
  retain [key, v]
  updateDict r fun d => .ok ((), ⟨d.keys.push key, d.values.push v⟩)

def dictInsert (r : Ref) (key v : Slot) : Act (Option Doomed) := do
  let found ← read fun cx => do
    let d ← cx.dict r
    d.values.checkKind v
    cx.table.search d.keys key
  match found with
  | some i => dictReplace r i v
  | none =>
    dictAppend r key v
    return none

def newSet (kind : SlotKind) (slots : List Slot) : Act Ref := do
  let grant ← nextGrant
  let l ← read fun cx => SlotList.ofSlots cx.listLimit grant kind slots
  allocContainer (.set ⟨l⟩) slots

end Act

end ScopedHeap
