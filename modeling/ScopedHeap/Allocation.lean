import ScopedHeap.Counting

/-!
# Allocation, payloads and scopes
-/
namespace ScopedHeap

namespace Act

def allocRecord (payload : Payload) : Act Ref := do
  let cx ← context
  let header := Header.fresh cx.current cx.scopes.activeHome
  let grant ← nextGrant
  let r ← onTable (·.insert grant ⟨header, payload⟩)
  modifyTable (·.attach r.index)
  modifyCounters fun c => { c with allocated := c.allocated + 1 }
  notify (.allocated r cx.current (headerSize + payload.size))
  return r

/-- Byte that fills storage which is not asked to be zeroed. -/
def fillByte : UInt8 := 0xCD

def buffer (grant : Grant) (len : Nat) (fill : UInt8) : Except Error Storage :=
  if grant.covers len then .ok (.filled len fill) else .error (.outOfMemory len)

/-- A raw record of `size` bytes, header included. -/
def allocate (size : Nat) (zeroed : Bool) : Act Ref := do
  if size < headerSize then
    throw (.allocationTooSmall size headerSize)
  let grant ← nextGrant
  let storage ← read fun _ => buffer grant (size - headerSize) (if zeroed then 0 else fillByte)
  allocRecord (.raw storage)

def allocateStatic (payload : Payload) : Act Ref := do
  let grant ← nextGrant
  onTable (·.insert grant ⟨.forever, payload⟩)

def allocBuffered (bytes : Nat) (payload : Payload) : Act Ref := do
  let grant ← nextGrant
  if grant.covers bytes then
    allocRecord payload
  else
    throw (.outOfMemory bytes)

def newStr (bytes : List UInt8) : Act Ref := allocBuffered bytes.length (.str bytes)

def newText (content : String) : Act Ref := allocBuffered content.utf8ByteSize (.text content)

/-- A record takes one hook in its life. -/
def installHook (r : Ref) (hook : Hook) : Act Unit := do
  let header ← read (·.header r)
  if header.hook.isSome then
    throw (.destructorAlreadySet r.index)
  modifyRecord r (Record.setHook hook)

/-- Lets a record have a new payload made from its own. -/
def updatePayload {α : Type} (r : Ref) (f : Payload → Except Error (α × Payload)) : Act α :=
  onTable (·.updatePayload r f)

/-- Puts a payload into a record; the answer is the one it had. -/
def exchangePayload (r : Ref) (payload : Payload) : Act Payload :=
  updatePayload r fun old => .ok (old, payload)

def setPayload (r : Ref) (payload : Payload) : Act Unit := do
  let _ ← exchangePayload r payload

/-- Moves the payload of a record into a new static record. -/
def staticFrom (r : Ref) : Act Ref := do
  let payload ← exchangePayload r .empty
  allocateStatic payload

/-- `b` is emptied, `a` takes what `b` held, and `b` receives what `a` held. A record swapped with
itself is thereby left empty. -/
def swapPayloads (a b : Ref) : Act Unit := do
  let fromB ← exchangePayload b .empty
  let fromA ← exchangePayload a fromB
  setPayload b fromA

def writeRaw (r : Ref) (offset : Nat) (bytes : List UInt8) : Act (List UInt8) :=
  updatePayload r fun payload => do
    let storage := (← payload.asRaw).write offset bytes
    return (storage.toList, .raw storage)

def pushScope : Act ScopeId := do
  modifyScopes ScopeStack.push
  let scope := (← context).current
  notify (.scopeEntered scope)
  return scope

def auditScope (scope : ScopeId) : Act Unit := do
  let escaped := ((← context).liveIn scope).length
  if 0 < escaped then notify (.scopeEscaped scope escaped) else notify (.scopeClean scope)

def exitScope (scope : ScopeId) (drained : Nat) : Act Unit := do
  if (← context).settings.auditScopes then
    auditScope scope
  let _ ← onScopes ScopeStack.pop
  notify (.scopeExited scope drained)

def unearthNext : Act (Option Doomed) := do
  match ← onScopes fun s => .ok s.nextPending with
  | none => return none
  | some r => return some (← unearth r)

end Act

end ScopedHeap
