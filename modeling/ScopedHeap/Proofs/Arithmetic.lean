import ScopedHeap.Context
import ScopedHeap.Proofs.Conduct

/-!
# The arithmetic of lists

Lengths, capacities and sizes in bytes are kept in 64-bit words, and indices in signed ones. The
list limit, whatever is configured, is at most `maxList`, and no list gets room for more slots than
the limit, or for one if the limit is zero (`SlotList.Bounded`). So nothing that is computed from
these numbers leaves the range of its word, not even the capacity that a full list would grow to.
-/
namespace ScopedHeap

/-- The number fits a 64-bit word. -/
def IsSize (n : Int) : Prop := 0 ≤ n ∧ n < sizeBound

/-- The number fits a signed 64-bit word. -/
def IsOffset (n : Int) : Prop := -maxOffset - 1 ≤ n ∧ n ≤ maxOffset

theorem isOffset_toInt (index : Int64) : IsOffset index.toInt := by
  have lower := index.le_toInt
  have upper := index.toInt_lt
  unfold IsOffset maxOffset
  omega

theorem Settings.listLimit_le (s : Settings) : s.listLimit ≤ maxList := Nat.min_le_right _ _

namespace SlotList

variable {l k : SlotList} {limit i : Nat} {grant : Grant} {v : Slot}

/-- The lists that can be had under a limit. A slot is pushed only where room has been made. -/
inductive Attainable (limit : Nat) : SlotList → Prop
  | made {grant : Grant} {kind : SlotKind} {slots : List Slot} {l : SlotList}
    (laid : ofSlots limit grant kind slots = .ok l) : Attainable limit l
  | reserved {grant : Grant} {l k : SlotList} (h : Attainable limit l)
    (made : l.reserve limit grant = .ok k) : Attainable limit k
  | pushed {l : SlotList} (h : Attainable limit l) (room : l.length < l.capacity) (v : Slot) :
    Attainable limit (l.push v)
  | popped {l k : SlotList} {v : Slot} (h : Attainable limit l) (taken : l.pop = .ok (v, k)) :
    Attainable limit k
  | replaced {l : SlotList} (h : Attainable limit l) (i : Nat) (v : Slot) :
    Attainable limit (l.replace i v)

/-- The list fits its room, and its room the limit, but for one slot that is always there. -/
structure Bounded (limit : Nat) (l : SlotList) : Prop where
  length_le : l.length ≤ l.capacity
  capacity_le : l.capacity ≤ max 1 limit

theorem length_le_of_ofSlots {kind : SlotKind} {slots : List Slot}
    (h : ofSlots limit grant kind slots = .ok l) : slots.length ≤ limit := by
  unfold ofSlots at h
  split at h
  · cases h
  · exact Nat.le_of_not_lt ‹_›

theorem bounded_ofSlots {kind : SlotKind} {slots : List Slot}
    (h : ofSlots limit grant kind slots = .ok l) : l.Bounded limit := by
  have short := length_le_of_ofSlots h
  have capacity := capacity_ofSlots h
  have length : l.length = slots.length := congrArg List.length (items_ofSlots h)
  constructor <;> omega

theorem Bounded.grow (h : l.Bounded limit) (grows : l.Grows limit k) : k.Bounded limit := by
  have length := h.length_le
  rcases grows with ⟨_, rfl⟩ | ⟨_, small, _, rfl⟩
  · exact h
  · constructor
    · show l.length ≤ l.capacity * 2
      omega
    · show l.capacity * 2 ≤ max 1 limit
      omega

theorem Bounded.push (h : l.Bounded limit) (room : l.length < l.capacity) (v : Slot) :
    (l.push v).Bounded limit where
  length_le := by simpa [length, SlotList.push] using room
  capacity_le := h.capacity_le

theorem Bounded.pop (h : l.Bounded limit) (taken : l.pop = .ok (v, k)) : k.Bounded limit := by
  have items := congrArg List.length (items_pop taken)
  have capacity : k.capacity = l.capacity := by
    unfold SlotList.pop at taken
    split at taken
    · cases taken
      rfl
    · cases taken
  have length := h.length_le
  simp only [SlotList.length, List.length_append, List.length_singleton] at items length
  exact ⟨by rw [SlotList.length]; omega, capacity ▸ h.capacity_le⟩

theorem Bounded.replace (h : l.Bounded limit) (i : Nat) (v : Slot) :
    (l.replace i v).Bounded limit where
  length_le := by simpa [length, SlotList.replace] using h.length_le
  capacity_le := h.capacity_le

theorem Attainable.bounded (h : l.Attainable limit) : l.Bounded limit := by
  induction h with
  | made laid => exact bounded_ofSlots laid
  | reserved _ made ih => exact ih.grow (grows_of_reserve made)
  | pushed _ room v ih => exact ih.push room v
  | popped _ taken ih => exact ih.pop taken
  | replaced _ i v ih => exact ih.replace i v

theorem Bounded.capacity_le_maxList {s : Settings} (h : l.Bounded s.listLimit) :
    l.capacity ≤ maxList := by
  have limit := s.listLimit_le
  have capacity := h.capacity_le
  have pos : 1 ≤ maxList := by decide
  omega

/-- Nothing that is computed from the length and the capacity of a list, where it is made, grown or
measured, leaves the range of a word. -/
structure InRange (l : SlotList) : Prop where
  grown : IsSize (l.capacity * 2)
  missing : IsSize (l.capacity * 2 - l.length)
  grownBytes : IsSize (l.capacity * 2 * slotSize)
  bytes : IsSize (l.capacity * slotSize)
  size : IsSize l.size

theorem Bounded.inRange {s : Settings} (h : l.Bounded s.listLimit) : l.InRange := by
  have capacity := h.capacity_le_maxList
  have length := h.length_le
  unfold maxList maxOffset slotSize at capacity
  constructor
  all_goals unfold IsSize sizeBound
  case size => unfold SlotList.size slotSize; omega
  case grownBytes | bytes => unfold slotSize; omega
  case grown | missing => omega

theorem Bounded.isSize_dict {s : Settings} (h : l.Bounded s.listLimit)
    (h' : k.Bounded s.listLimit) : IsSize (SlotDict.size ⟨l, k⟩) := by
  have capacity := h.capacity_le_maxList
  have capacity' := h'.capacity_le_maxList
  unfold maxList maxOffset slotSize at capacity capacity'
  unfold IsSize sizeBound SlotDict.size slotSize
  dsimp only
  omega

/-- The sum that resolves an index; it is formed for indices below zero only. -/
theorem Bounded.isOffset_add {s : Settings} (h : l.Bounded s.listLimit) {index : Int64}
    (negative : index.toInt < 0) : IsOffset (index.toInt + l.length) := by
  have capacity := h.capacity_le_maxList
  have length := h.length_le
  have lower := (isOffset_toInt index).1
  unfold maxList maxOffset slotSize at capacity
  unfold IsOffset maxOffset at *
  omega

/-- The index of a slot as it is counted from the front. -/
def resolve (l : SlotList) (index : Int) : Int := if 0 ≤ index then index else l.length + index

theorem position_eq (l : SlotList) (index : Int) : l.position index =
    if -l.length ≤ index ∧ index < l.length then .ok (l.resolve index).toNat
    else .error (.indexOutOfRange index l.length) := by
  unfold position resolve
  by_cases front : 0 ≤ index
  · have inside : 0 ≤ index ∧ index < l.length ↔ -l.length ≤ index ∧ index < l.length := by omega
    simp only [if_neg (not_lt.mpr front), if_pos front, inside]
  · have inside : 0 ≤ index + l.length ∧ index + l.length < l.length ↔
        -l.length ≤ index ∧ index < l.length := by omega
    simp only [if_pos (not_le.mp front), if_neg front, inside, Int.add_comm]

/-- An index is resolved if it lies within the length to either side, and then to a slot of the
list. -/
structure Resolves (l : SlotList) (index : Int) : Prop where
  found : (∃ i, l.position index = .ok i) ↔ -l.length ≤ index ∧ index < l.length
  value : ∀ i, l.position index = .ok i →
    (i : Int) = l.resolve index ∧ i < l.length
  missed : ¬ (-l.length ≤ index ∧ index < l.length) →
    l.position index = .error (.indexOutOfRange index l.length)

theorem resolves (l : SlotList) (index : Int) : l.Resolves index := by
  have position := l.position_eq index
  by_cases inside : -l.length ≤ index ∧ index < l.length
  · rw [if_pos inside] at position
    constructor
    · exact iff_of_true ⟨_, position⟩ inside
    · intro i found
      obtain rfl := Except.ok.inj (position.symm.trans found)
      unfold resolve
      split <;> omega
    · exact fun outside => absurd inside outside
  · rw [if_neg inside] at position
    constructor
    · simp [position, inside]
    · simp [position]
    · exact fun _ => position

/-- Whatever list limit is configured, the arithmetic of every list that can be had under it stays
within the range of words, and indices are resolved exactly. -/
theorem Attainable.word_arithmetic {s : Settings} (h : l.Attainable s.listLimit) :
    l.InRange ∧ (∀ k, k.Attainable s.listLimit → IsSize (SlotDict.size ⟨l, k⟩)) ∧
    ∀ index : Int64, (index.toInt < 0 → IsOffset (index.toInt + l.length)) ∧
      l.Resolves index.toInt :=
  ⟨h.bounded.inRange, fun _ h' => h.bounded.isSize_dict h'.bounded,
    fun index => ⟨h.bounded.isOffset_add, l.resolves index.toInt⟩⟩

theorem word_arithmetic_full :
    SlotList.Attainable (Settings.listLimit { maxListLen := 5 }) ⟨.byte, [.byte 1, .byte 7], 2⟩ ∧
    IsSize (SlotList.size ⟨.byte, [.byte 1, .byte 7], 2⟩) ∧
    SlotList.position ⟨.byte, [.byte 1, .byte 7], 2⟩ Int64.minValue.toInt =
      .error (.indexOutOfRange Int64.minValue.toInt 2) := by
  have laid : ofSlots (Settings.listLimit { maxListLen := 5 }) (Grants.ample 0) .byte [.byte 1] =
    .ok ⟨.byte, [.byte 1], 1⟩ := rfl
  have doubled : reserve (Settings.listLimit { maxListLen := 5 }) (Grants.ample 1)
    ⟨.byte, [.byte 1], 1⟩ = .ok ⟨.byte, [.byte 1], 2⟩ := rfl
  have grown : Attainable (Settings.listLimit { maxListLen := 5 }) ⟨.byte, [.byte 1], 2⟩ :=
    (Attainable.made laid).reserved doubled
  have full : Attainable (Settings.listLimit { maxListLen := 5 })
      ⟨.byte, [.byte 1, .byte 7], 2⟩ := grown.pushed (by decide) (.byte 7)
  obtain ⟨range, _, indices⟩ := full.word_arithmetic
  exact ⟨full, range.size, (indices Int64.minValue).2.missed (by decide)⟩

end SlotList

end ScopedHeap
