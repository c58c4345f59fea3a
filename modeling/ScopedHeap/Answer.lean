import ScopedHeap.Containers

/-!
# Answers

What commands answer, and the answers to questions.
-/
namespace ScopedHeap

structure LiveEntry where
  ref : Ref
  creationScope : ScopeId
  refcount : Nat
  state : State
  deriving DecidableEq, Repr, Inhabited

def Context.liveEntries (cx : Context) : List LiveEntry :=
  cx.table.live.filterMap fun r =>
    (cx.table.find? r).map fun record =>
      ⟨r, record.header.creationScope, record.header.refcount, record.header.state⟩

inductive Answer where
  | done
  | number (n : Nat)
  | position (p : Option Nat)
  | flag (b : Bool)
  | ref (r : Ref)
  | refs (rs : List Ref)
  | slot (v : Slot)
  | slots (vs : List Slot)
  | kind (k : SlotKind)
  | bytes (bs : List UInt8)
  | text (content : String)
  | payload (p : Payload)
  | header (h : Header)
  | live (entries : List LiveEntry)
  | levels (ls : List Level)
  | settings (s : Settings)
  | block (id : ScopeId)
  deriving Repr, Inhabited

/-- What a name is bound to when it takes this answer: a reference, which may be null, or nothing
at all for an answer of another sort. -/
def Answer.bound? : Answer → Option (Option Ref)
  | ref r => some (some r)
  | slot v => some v.ref?
  | _ => none

abbrev Outcome := Except Error Answer

namespace Context

def listFind (cx : Context) (list : Ref) (v : Slot) : Except Error (Option Nat) := do
  cx.table.search (← cx.list list) v

def dictFindKey (cx : Context) (dict : Ref) (key : Slot) : Except Error (Option Nat) := do
  cx.table.search (← cx.dict dict).keys key

def dictFindValue (cx : Context) (dict : Ref) (v : Slot) : Except Error (Option Nat) := do
  cx.table.search (← cx.dict dict).values v

def setFind (cx : Context) (set : Ref) (v : Slot) : Except Error (Option Nat) := do
  cx.table.search (← cx.set set).elements v

def dictAt (cx : Context) (dict : Ref) (key : Slot) : Except Error Slot := do
  match ← cx.dictFindKey dict key with
  | some i => (← cx.dict dict).values.slotAt i
  | none => throw .keyNotFound

def answer (cx : Context) : Question → Outcome
  | .header r => return .header (← cx.header r)
  | .payload r => return .payload (← cx.payload r)
  | .rawBytes r => return .bytes (← (← cx.payload r).asRaw).toList
  | .refcount r => return .number (← cx.header r).refcount
  | .creationScope r => return .number (← cx.header r).creationScope
  | .isLive r => return .flag (cx.isLive r)
  | .isPending r => return .flag (cx.isPending r)
  | .currentScope => return .number cx.current
  | .liveObjects => return .live cx.liveEntries
  | .liveObjectsIn scope => return .refs (cx.liveIn scope)
  | .levels => return .levels cx.scopes.levels
  | .settings => return .settings cx.settings
  | .boolText b => return .ref (cx.boolText b)
  | .strBytes r => return .bytes (← (← cx.payload r).asStr)
  | .textContent r => return .text (← (← cx.payload r).asText)
  | .strEq a b => return .flag (← cx.table.strEq a b)
  | .listAt r index => return .slot (← (← cx.list r).slotAt index)
  | .listFind r v => return .position (← cx.listFind r v)
  | .listContains r v => return .flag (← cx.listFind r v).isSome
  | .listLength r => return .number (← cx.list r).length
  | .listCapacity r => return .number (← cx.list r).capacity
  | .listKind r => return .kind (← cx.list r).kind
  | .listSlots r => return .slots (← cx.list r).items
  | .dictAt r key => return .slot (← cx.dictAt r key)
  | .dictFindKey r key => return .position (← cx.dictFindKey r key)
  | .dictContainsKey r key => return .flag (← cx.dictFindKey r key).isSome
  | .dictContainsValue r v => return .flag (← cx.dictFindValue r v).isSome
  | .dictLength r => return .number (← cx.dict r).length
  | .setContains r v => return .flag (← cx.setFind r v).isSome
  | .setLength r => return .number (← cx.set r).length
  | .setSlots r => return .slots (← cx.set r).elements.items

end Context

/-- What a change comes to: its answer, a record that it has doomed, and what is to be noted after
that record is gone. -/
structure Effect where
  answer : Answer
  doomed : Option Doomed := none
  closing : List Notice := []

def Act.change : Change → Act Effect
  | .allocate size zeroed => return { answer := .ref (← allocate size zeroed) }
  | .allocateStatic contents => return { answer := .ref (← allocateStatic contents.payload) }
  | .staticFrom r => return { answer := .ref (← staticFrom r) }
  | .setPayload r contents => do
    setPayload r contents.payload
    return { answer := .done }
  | .swapPayloads a b => do
    swapPayloads a b
    return { answer := .done }
  | .writeRaw r offset bytes => return { answer := .bytes (← writeRaw r offset bytes) }
  | .pushScope => return { answer := .number (← pushScope) }
  | .increment _ none | .decrement _ _ none => return { answer := .done }
  | .increment family (some r) => do
    increment family r
    return { answer := .done }
  | .decrement family keep (some r) =>
    return { answer := .done, doomed := ← decrement family keep r }
  | .newStr bytes => return { answer := .ref (← newStr bytes) }
  | .newText content => return { answer := .ref (← newText content) }
  | .newList kind slots => return { answer := .ref (← newList kind slots) }
  | .listPush r v => do
    listPush r v
    return { answer := .done }
  | .listPop r => do
    let (v, doomed) ← listPop r
    return { answer := .slot v, doomed, closing := [.popped r] }
  | .listSet r index v => return { answer := .done, doomed := ← listSet r index v }
  | .newDict keyKind valueKind keys values =>
    return { answer := .ref (← newDict keyKind valueKind keys values) }
  | .dictInsert r key v => return { answer := .done, doomed := ← dictInsert r key v }
  | .newSet kind slots => return { answer := .ref (← newSet kind slots) }

end ScopedHeap
