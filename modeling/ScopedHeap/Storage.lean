import ScopedHeap.Ref

/-!
# Untyped storage

A buffer of bytes. One that was never written to is known by its length and the byte that fills it,
so that its size costs nothing; what it holds is the same list either way.
-/
namespace ScopedHeap

inductive Storage where
  | filled (length : Nat) (byte : UInt8)
  | written (bytes : List UInt8)
  deriving DecidableEq, Repr

namespace Storage

def empty : Storage := .written []

instance : Inhabited Storage := ⟨empty⟩

def toList : Storage → List UInt8
  | filled length byte => List.replicate length byte
  | written bytes => bytes

def size : Storage → Nat
  | filled length _ => length
  | written bytes => bytes.length

/-- Writes at an offset; what would fall behind the end is dropped. -/
def write (s : Storage) (offset : Nat) (bytes : List UInt8) : Storage :=
  .written ((s.toList.take offset ++ bytes ++ s.toList.drop (offset + bytes.length)).take s.size)

@[simp] theorem toList_empty : empty.toList = [] := rfl

@[simp] theorem toList_filled (length : Nat) (byte : UInt8) :
    (filled length byte).toList = List.replicate length byte := rfl

@[simp] theorem toList_written (bytes : List UInt8) : (written bytes).toList = bytes := rfl

@[simp] theorem length_toList (s : Storage) : s.toList.length = s.size := by
  cases s with
  | filled length byte => exact List.length_replicate
  | written bytes => rfl

@[simp] theorem size_write (s : Storage) (offset : Nat) (bytes : List UInt8) :
    (s.write offset bytes).size = s.size := by
  have long := s.length_toList
  simp only [write, size, List.length_take, List.length_append, List.length_drop]
  simp only [size] at long
  omega

end Storage

end ScopedHeap
