import ScopedHeap.Run

/-!
# The weight of tables and scopes

Each change of a table or of a stack of scopes moves its weight by an amount that can be read off
the change. Links, counts and states weigh nothing.
-/
namespace ScopedHeap

def Record.KeepsWeight (f : Record → Record) : Prop := ∀ r, (f r).weight = r.weight

namespace Table

theorem weight_modifyAt (t : Table) (i : Nat) (f : Record → Record) :
    (t.modifyAt i f).weight + (t.recordAt? i).elim 0 Record.weight =
      t.weight + (t.recordAt? i).elim 0 (fun r => (f r).weight) := by
  have h := total_modify Cell.weight (fun cell => { cell with record := cell.record.map f })
    t.cells.toList i
  simp only [Array.getElem?_toList] at h
  simp only [weight, modifyAt, Array.toList_modify, recordAt?]
  cases hc : t.cells[i]? with
  | none => simpa [hc] using h
  | some cell =>
    cases hr : cell.record <;> simpa [hc, hr, Cell.weight] using h

theorem weight_modifyAt_of_eq (t : Table) (i : Nat) {f : Record → Record}
    (h : Record.KeepsWeight f) : (t.modifyAt i f).weight = t.weight := by
  have := t.weight_modifyAt i f
  have same : (fun r => (f r).weight) = Record.weight := funext h
  rw [same] at this
  omega

theorem weight_attach (t : Table) (i : Nat) : (t.attach i).weight = t.weight := by
  have keep (u : Table) (j : Nat) {f : Record → Record} (h : Record.KeepsWeight f) :
      total Cell.weight (u.modifyAt j f).cells.toList = total Cell.weight u.cells.toList :=
    u.weight_modifyAt_of_eq j h
  have link : Record.KeepsWeight fun r => (r.setPrev none).setNext t.head := fun _ => rfl
  have prev (l : Option Nat) : Record.KeepsWeight (Record.setPrev l) := fun _ => rfl
  unfold attach
  split
  · rfl
  · split <;> simp only [weight, keep, link, prev]

theorem weight_detach (t : Table) (i : Nat) : (t.detach i).weight = t.weight := by
  have keep (u : Table) (j : Nat) {f : Record → Record} (h : Record.KeepsWeight f) :
      total Cell.weight (u.modifyAt j f).cells.toList = total Cell.weight u.cells.toList :=
    u.weight_modifyAt_of_eq j h
  have clear : Record.KeepsWeight fun r => (r.setPrev none).setNext none := fun _ => rfl
  have prev (l : Option Nat) : Record.KeepsWeight (Record.setPrev l) := fun _ => rfl
  have next (l : Option Nat) : Record.KeepsWeight (Record.setNext l) := fun _ => rfl
  unfold detach
  split
  · rfl
  · simp only [weight]
    split
    · split <;> simp only [keep, clear, prev, next]
    · split
      · split <;> simp only [keep, clear, prev]
      · simp only [keep, clear]

theorem weight_insert {t u : Table} {grant : Grant} {record : Record} {r : Ref}
    (h : t.insert grant record = .ok (r, u)) :
    u.weight ≤ t.weight + record.weight := by
  unfold insert at h
  split at h
  · rename_i index rest _
    simp only [Except.ok.injEq, Prod.mk.injEq] at h
    obtain ⟨_, rfl⟩ := h
    have := total_set Cell.weight ⟨(t.cells[index]?.map Cell.generation).getD 0, some record⟩
      t.cells.toList index
    simp only [weight, Array.toList_setIfInBounds]
    cases h : t.cells.toList[index]? with
    | none => simp_all
    | some cell =>
      simp_all only [Cell.weight, Option.elim]
      omega
  · split at h
    · simp only [Except.ok.injEq, Prod.mk.injEq] at h
      obtain ⟨_, rfl⟩ := h
      simp [weight, Cell.weight]
    · simp at h

theorem weight_remove {t u : Table} {record : Record} {r : Ref} (h : t.remove r = .ok (record, u)) :
    u.weight + record.weight = t.weight := by
  unfold remove at h
  split at h
  · rename_i found hfound
    simp only [Except.ok.injEq, Prod.mk.injEq] at h
    obtain ⟨rfl, rfl⟩ := h
    have := total_set Cell.weight ⟨(r.generation + 1) % wordBound, none⟩ t.cells.toList r.index
    have present := recordAt?_of_find? hfound
    simp only [recordAt?] at present
    simp only [weight, Array.toList_setIfInBounds]
    cases hc : t.cells[r.index]? <;> simp_all [Cell.weight]
  · simp at h

end Table

namespace ScopeStack

theorem weight_push (s : ScopeStack) : s.push.weight = s.weight + 2 := by
  simp only [weight, push, pending, depth, total_cons, List.length_nil, List.length_cons]
  omega

theorem weight_pop {s t : ScopeStack} {l : Level} (h : s.pop = .ok (l, t)) :
    t.weight + 2 ≤ s.weight := by
  unfold pop at h
  split at h
  · cases h
  · rename_i level rest outer
    cases h
    simp only [weight, pending, depth, outer, total_cons, List.length_cons]
    omega

theorem weight_defer (s : ScopeStack) (home : Home) (r : Ref) :
    (s.defer home r).2.weight ≤ s.weight + 1 := by
  unfold defer
  split
  · simp only [weight, pending, depth, enqueue, total_cons, List.length_append, List.length_cons,
      List.length_nil]
    omega
  · rename_i up _
    have moved := total_modify (fun l : Level => l.queue.length) (enqueue r) s.outer up
    simp only [weight, pending, depth, total_cons, List.length_modify]
    cases h : s.outer[up]? with
    | none =>
      simp only [h, Option.elim] at moved
      omega
    | some level =>
      simp only [h, Option.elim, enqueue, List.length_append, List.length_cons,
        List.length_nil] at moved
      omega

theorem weight_nextPending (s : ScopeStack) :
    s.nextPending.2.weight + s.nextPending.1.elim 0 (fun _ => 1) = s.weight := by
  unfold nextPending
  split
  · rfl
  · rename_i r rest queue
    simp only [weight, pending, depth, queue, total_cons, List.length_cons, Option.elim]
    omega

end ScopeStack

end ScopedHeap
