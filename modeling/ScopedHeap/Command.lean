import ScopedHeap.Payload

/-!
# Commands

The language of programs over a context. A command asks a question, changes something, installs
a destructor hook, or runs a block inside a scope of its own. Hooks are scripts in the same
language, so a program is a finite tree. References are written as operands: null, a variable
that an earlier command has bound, or a reference spelled out.
-/
namespace ScopedHeap

/-- Stack references borrow from enclosing scopes; heap references count everywhere. -/
inductive Family where
  | stack
  | heap
  deriving DecidableEq, Repr, Inhabited

/-- What a failing operation does: hand the error back, or stop the program. -/
inductive Policy where
  | checked
  | strict
  deriving DecidableEq, Repr, Inhabited

inductive Operand where
  | null
  | var (name : String)
  | ref (r : Ref)
  deriving DecidableEq, Repr, Inhabited

inductive SlotOperand where
  | object (o : Operand)
  | str (o : Operand)
  | text (o : Operand)
  | byte (b : UInt8)
  | float (x : Binary64)
  | uint (n : UInt64)
  | int (i : Int64)
  deriving DecidableEq, Repr, Inhabited

/-- Questions, which leave the context as it is. The parameters are what stands for a record, for a
record or null, and for a slot: operands in a program, and references once they are looked up. -/
inductive Query (ρ ν σ : Type) where
  | header (target : ρ)
  | payload (target : ρ)
  | rawBytes (target : ρ)
  | refcount (target : ρ)
  | creationScope (target : ρ)
  | isLive (target : ρ)
  | isPending (target : ρ)
  | currentScope
  | liveObjects
  | liveObjectsIn (scope : ScopeId)
  | levels
  | settings
  | boolText (b : Bool)
  | strBytes (target : ρ)
  | textContent (target : ρ)
  | strEq (a b : ν)
  | listAt (list : ρ) (index : Int)
  | listFind (list : ρ) (v : σ)
  | listContains (list : ρ) (v : σ)
  | listLength (list : ρ)
  | listCapacity (list : ρ)
  | listKind (list : ρ)
  | listSlots (list : ρ)
  | dictAt (dict : ρ) (key : σ)
  | dictFindKey (dict : ρ) (key : σ)
  | dictContainsKey (dict : ρ) (key : σ)
  | dictContainsValue (dict : ρ) (v : σ)
  | dictLength (dict : ρ)
  | setContains (set : ρ) (v : σ)
  | setLength (set : ρ)
  | setSlots (set : ρ)
  deriving DecidableEq, Repr

/-- Changes, with parameters as for `Query`. -/
inductive Update (ρ ν σ : Type) where
  | allocate (size : Nat) (zeroed : Bool)
  | allocateStatic (contents : Literal)
  /-- Moves the payload of a record into a new static one. -/
  | staticFrom (source : ρ)
  | setPayload (target : ρ) (contents : Literal)
  | swapPayloads (a b : ρ)
  | writeRaw (target : ρ) (offset : Nat) (bytes : List UInt8)
  | pushScope
  | increment (family : Family) (target : ν)
  /-- With `keep`, a record whose count drops to zero stays alive. -/
  | decrement (family : Family) (keep : Bool) (target : ν)
  | newStr (bytes : List UInt8)
  | newText (content : String)
  | newList (kind : SlotKind) (slots : List σ)
  | listPush (list : ρ) (v : σ)
  | listPop (list : ρ)
  | listSet (list : ρ) (index : Int) (v : σ)
  | newDict (keyKind valueKind : SlotKind) (keys values : List σ)
  | dictInsert (dict : ρ) (key v : σ)
  | newSet (kind : SlotKind) (slots : List σ)
  deriving DecidableEq, Repr

abbrev WrittenQuery := Query Operand Operand SlotOperand

abbrev WrittenUpdate := Update Operand Operand SlotOperand

abbrev Question := Query Ref (Option Ref) Slot

abbrev Change := Update Ref (Option Ref) Slot

inductive Command where
  | ask (q : WrittenQuery) (policy : Policy) (bind : Option String)
  | update (u : WrittenUpdate) (policy : Policy) (bind : Option String)
  /-- Leaves the active scope. -/
  | popScope (policy : Policy)
  /-- Installs a script to be run when the target is destroyed; a failure stops the program. -/
  | setHook (target : Operand) (name : String) (script : List Command)
  /-- Runs the body inside a new scope, which is left at its end. -/
  | block (body : List Command)
  deriving Repr, Inhabited

inductive Hook where
  /-- A container gives up the references in its slots, provided that the record still holds a
  container of the kind that it was made with. -/
  | releaseSlots (kind : PayloadKind)
  | script (name : String) (commands : List Command)
  deriving Repr, Inhabited

end ScopedHeap
