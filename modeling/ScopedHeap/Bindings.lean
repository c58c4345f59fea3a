import ScopedHeap.Command

/-!
# Variables

Operands are looked up when a command is carried out, so a script sees what its variables stand for
at the time it runs.
-/
namespace ScopedHeap

/-- Why a program stops: an error that nothing handles, or an operand that names no record where
one is needed. -/
inductive Fault where
  | error (e : Error)
  | operand (o : Operand)
  deriving DecidableEq, Repr, Inhabited

structure Bindings where
  entries : List (String × Option Ref) := []
  deriving DecidableEq, Repr, Inhabited

namespace Bindings

def bind (b : Bindings) (name : String) (r : Option Ref) : Bindings := ⟨(name, r) :: b.entries⟩

def nullable (b : Bindings) (o : Operand) : Except Fault (Option Ref) :=
  match o with
  | .null => .ok none
  | .ref r => .ok (some r)
  | .var name =>
    match b.entries.lookup name with
    | some r => .ok r
    | none => .error (.operand o)

def record (b : Bindings) (o : Operand) : Except Fault Ref := do
  match ← b.nullable o with
  | some r => return r
  | none => throw (.operand o)

def slot (b : Bindings) : SlotOperand → Except Fault Slot
  | .object o => return .object (← b.nullable o)
  | .str o => return .str (← b.nullable o)
  | .text o => return .text (← b.nullable o)
  | .byte x => .ok (.byte x)
  | .float x => .ok (.float x)
  | .uint n => .ok (.uint n)
  | .int i => .ok (.int i)

def slots (b : Bindings) (vs : List SlotOperand) : Except Fault (List Slot) := vs.mapM b.slot

def query (b : Bindings) : WrittenQuery → Except Fault Question
  | .header o => return .header (← b.record o)
  | .payload o => return .payload (← b.record o)
  | .rawBytes o => return .rawBytes (← b.record o)
  | .refcount o => return .refcount (← b.record o)
  | .creationScope o => return .creationScope (← b.record o)
  | .isLive o => return .isLive (← b.record o)
  | .isPending o => return .isPending (← b.record o)
  | .currentScope => return .currentScope
  | .liveObjects => return .liveObjects
  | .liveObjectsIn scope => return .liveObjectsIn scope
  | .levels => return .levels
  | .settings => return .settings
  | .boolText x => return .boolText x
  | .strBytes o => return .strBytes (← b.record o)
  | .textContent o => return .textContent (← b.record o)
  | .strEq x y => return .strEq (← b.nullable x) (← b.nullable y)
  | .listAt o index => return .listAt (← b.record o) index
  | .listFind o v => return .listFind (← b.record o) (← b.slot v)
  | .listContains o v => return .listContains (← b.record o) (← b.slot v)
  | .listLength o => return .listLength (← b.record o)
  | .listCapacity o => return .listCapacity (← b.record o)
  | .listKind o => return .listKind (← b.record o)
  | .listSlots o => return .listSlots (← b.record o)
  | .dictAt o key => return .dictAt (← b.record o) (← b.slot key)
  | .dictFindKey o key => return .dictFindKey (← b.record o) (← b.slot key)
  | .dictContainsKey o key => return .dictContainsKey (← b.record o) (← b.slot key)
  | .dictContainsValue o v => return .dictContainsValue (← b.record o) (← b.slot v)
  | .dictLength o => return .dictLength (← b.record o)
  | .setContains o v => return .setContains (← b.record o) (← b.slot v)
  | .setLength o => return .setLength (← b.record o)
  | .setSlots o => return .setSlots (← b.record o)

def update (b : Bindings) : WrittenUpdate → Except Fault Change
  | .allocate size zeroed => return .allocate size zeroed
  | .allocateStatic contents => return .allocateStatic contents
  | .staticFrom o => return .staticFrom (← b.record o)
  | .setPayload o contents => return .setPayload (← b.record o) contents
  | .swapPayloads x y => return .swapPayloads (← b.record x) (← b.record y)
  | .writeRaw o offset bytes => return .writeRaw (← b.record o) offset bytes
  | .pushScope => return .pushScope
  | .increment family o => return .increment family (← b.nullable o)
  | .decrement family keep o => return .decrement family keep (← b.nullable o)
  | .newStr bytes => return .newStr bytes
  | .newText content => return .newText content
  | .newList kind vs => return .newList kind (← b.slots vs)
  | .listPush o v => return .listPush (← b.record o) (← b.slot v)
  | .listPop o => return .listPop (← b.record o)
  | .listSet o index v => return .listSet (← b.record o) index (← b.slot v)
  | .newDict keyKind valueKind ks vs =>
    return .newDict keyKind valueKind (← b.slots ks) (← b.slots vs)
  | .dictInsert o key v => return .dictInsert (← b.record o) (← b.slot key) (← b.slot v)
  | .newSet kind vs => return .newSet kind (← b.slots vs)

end Bindings

end ScopedHeap
