import ScopedHeap.SlotList
import ScopedHeap.Storage

/-!
# Record contents
-/
namespace ScopedHeap

inductive Payload where
  | raw (storage : Storage)
  | str (bytes : List UInt8)
  | text (content : String)
  | list (l : SlotList)
  | dict (d : SlotDict)
  | set (s : SlotSet)
  deriving DecidableEq, Repr

namespace Payload

/-- What is left of a payload that has been taken away. -/
def empty : Payload := .raw .empty

instance : Inhabited Payload := ⟨empty⟩

def kind : Payload → PayloadKind
  | raw _ => .raw
  | str _ => .str
  | text _ => .text
  | list _ => .list
  | dict _ => .dict
  | set _ => .set

/-- Bytes of storage beside the header. -/
def size : Payload → Nat
  | raw storage => storage.size
  | str bytes => bytes.length
  | text content => content.utf8ByteSize
  | list l => l.size
  | dict d => d.size
  | set s => s.size

/-- The slots held by a container, in the order in which they are released. -/
def slots : Payload → List Slot
  | raw _ | str _ | text _ => []
  | list l => l.items
  | dict d => d.keys.items ++ d.values.items
  | set s => s.elements.items

/-- The records that the slots of a container refer to, with repetitions. -/
def refs (p : Payload) : List Ref := p.slots.filterMap Slot.ref?

def asRaw : Payload → Except Error Storage
  | raw storage => .ok storage
  | other => .error (.wrongPayload .raw other.kind)

def asStr : Payload → Except Error (List UInt8)
  | str bytes => .ok bytes
  | other => .error (.wrongPayload .str other.kind)

def asText : Payload → Except Error String
  | text content => .ok content
  | other => .error (.wrongPayload .text other.kind)

def asList : Payload → Except Error SlotList
  | list l => .ok l
  | other => .error (.wrongPayload .list other.kind)

def asDict : Payload → Except Error SlotDict
  | dict d => .ok d
  | other => .error (.wrongPayload .dict other.kind)

def asSet : Payload → Except Error SlotSet
  | set s => .ok s
  | other => .error (.wrongPayload .set other.kind)

end Payload

/-- Contents that can be written down without naming a record. -/
inductive Literal where
  | raw (bytes : List UInt8)
  | str (bytes : List UInt8)
  | text (content : String)
  deriving DecidableEq, Repr, Inhabited

def Literal.payload : Literal → Payload
  | raw bytes => .raw (.written bytes)
  | str bytes => .str bytes
  | text content => .text content

end ScopedHeap
