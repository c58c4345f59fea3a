import ScopedHeap.Record

/-!
# The record table

Records are kept in cells that are reused, last vacated first. A cell counts its generations, so
that a reference to an earlier occupant is told from one to the present record. The live records
form a doubly linked list through their headers, most recently attached first.

`find` is the one view of the table by reference; the links go by cell index alone.
-/
namespace ScopedHeap

structure Cell where
  generation : Nat
  record : Option Record
  deriving Repr, Inhabited

structure Table where
  cells : Array Cell
  /-- Vacant cells, last vacated first. -/
  free : List Nat
  /-- First record of the live list. -/
  head : Option Nat
  liveCount : Nat
  /-- Number of records stored. -/
  occupied : Nat
  deriving Repr, Inhabited

namespace Table

def empty : Table := ⟨#[], [], none, 0, 0⟩

def dangling (r : Ref) : Error := .danglingReference r.index r.generation

def recordAt? (t : Table) (index : Nat) : Option Record := t.cells[index]?.bind Cell.record

def find? (t : Table) (r : Ref) : Option Record :=
  match t.cells[r.index]? with
  | some cell => if cell.generation = r.generation then cell.record else none
  | none => none

def find (t : Table) (r : Ref) : Except Error Record :=
  match t.find? r with
  | some record => .ok record
  | none => .error (dangling r)

theorem recordAt?_of_find? {t : Table} {r : Ref} {record : Record} (h : t.find? r = some record) :
    t.recordAt? r.index = some record := by
  simp only [find?] at h
  split at h <;> simp_all [recordAt?]

theorem find?_of_find {t : Table} {r : Ref} {record : Record} (h : t.find r = .ok record) :
    t.find? r = some record := by
  simp only [find] at h
  split at h <;> simp_all

def contains (t : Table) (r : Ref) : Bool := (t.find? r).isSome

def modifyAt (t : Table) (index : Nat) (f : Record → Record) : Table :=
  { t with cells := t.cells.modify index fun cell => { cell with record := cell.record.map f } }

def updatePayload {α : Type} (t : Table) (r : Ref) (f : Payload → Except Error (α × Payload)) :
    Except Error (α × Table) := do
  let record ← t.find r
  let (a, payload) ← f record.payload
  return (a, t.modifyAt r.index (Record.setPayload payload))

/-- Stores a record in the cell vacated last, or in a new one. -/
def insert (t : Table) (grant : Grant) (record : Record) : Except Error (Ref × Table) :=
  match t.free with
  | index :: rest =>
    let generation := (t.cells[index]?.map Cell.generation).getD 0
    .ok (⟨index, generation⟩,
      { t with
        cells := t.cells.setIfInBounds index ⟨generation, some record⟩
        free := rest
        occupied := t.occupied + 1 })
  | [] =>
    if t.cells.size < wordBound ∧ grant.covers cellSize then
      .ok (⟨t.cells.size, 0⟩,
        { t with cells := t.cells.push ⟨0, some record⟩, occupied := t.occupied + 1 })
    else
      .error (.outOfMemory cellSize)

/-- Takes a record out of the table; its cell begins a new generation. -/
def remove (t : Table) (r : Ref) : Except Error (Record × Table) :=
  match t.find? r with
  | some record =>
    .ok (record,
      { t with
        cells := t.cells.setIfInBounds r.index ⟨(r.generation + 1) % wordBound, none⟩
        free := r.index :: t.free
        occupied := t.occupied - 1 })
  | none => .error (dangling r)

def attach (t : Table) (index : Nat) : Table :=
  match t.recordAt? index with
  | none => t
  | some _ =>
    let linked := t.modifyAt index fun r => (r.setPrev none).setNext t.head
    let linked :=
      match t.head with
      | some first => linked.modifyAt first (Record.setPrev (some index))
      | none => linked
    { linked with head := some index, liveCount := t.liveCount + 1 }

/-- Clears the links of a record and joins its neighbours. A record that has no predecessor and
is not the head either is on no list, and then nothing else changes. -/
def detach (t : Table) (index : Nat) : Table :=
  match t.recordAt? index with
  | none => t
  | some record =>
    let prev := record.header.prev
    let next := record.header.next
    let cleared := t.modifyAt index fun r => (r.setPrev none).setNext none
    let joinNext (u : Table) : Table :=
      let u :=
        match next with
        | some following => u.modifyAt following (Record.setPrev prev)
        | none => u
      { u with liveCount := u.liveCount - 1 }
    match prev with
    | some preceding => joinNext (cleared.modifyAt preceding (Record.setNext next))
    | none =>
      if t.head = some index then joinNext { cleared with head := next } else cleared

/-- Follows the `next` links from a cell over at most `limit` records. -/
def walk (t : Table) : (limit : Nat) → Option Nat → List Ref
  | limit + 1, some index =>
    match t.cells[index]? with
    | some ⟨generation, some record⟩ =>
      ⟨index, generation⟩ :: t.walk limit record.header.next
    | _ => []
  | _, _ => []

/-- The live records, most recently attached first. Each takes a cell of its own, so there are no
more of them than cells. -/
def live (t : Table) : List Ref := t.walk t.cells.size t.head

end Table

end ScopedHeap
