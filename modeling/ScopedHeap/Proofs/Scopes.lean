import Mathlib.Data.List.Perm.Basic
import ScopedHeap.ScopeStack

/-!
# Levels and their queues

The levels of a stack are numbered by depth (`ScopeStack.Numbered`), so the position at which a
record is put off names the level of its home scope. `ScopeStack.waiting` collects all queues; each
operation on the stack changes it by one record at most.
-/
namespace ScopedHeap

/-- The levels, innermost first, are numbered down to one. -/
def Level.Numbered : List Level → Prop
  | [] => True
  | level :: rest => level.id = rest.length + 1 ∧ Level.Numbered rest

namespace Level

theorem Numbered.id_eq {l : List Level} (h : Numbered l) {k : Nat} {level : Level}
    (hk : l[k]? = some level) : level.id = l.length - k := by
  induction l generalizing k with
  | nil => simp at hk
  | cons first rest ih =>
    cases k with
    | zero =>
      simp only [List.getElem?_cons_zero, Option.some.injEq] at hk
      rw [← hk]
      exact h.1
    | succ k =>
      rw [List.getElem?_cons_succ] at hk
      rw [ih h.2 hk, List.length_cons, Nat.add_sub_add_right]

theorem Numbered.eq_of_id_eq {l : List Level} (h : Numbered l) {a b : Level} (ha : a ∈ l)
    (hb : b ∈ l) (same : a.id = b.id) : a = b := by
  obtain ⟨i, hi⟩ := List.mem_iff_getElem?.mp ha
  obtain ⟨j, hj⟩ := List.mem_iff_getElem?.mp hb
  have hi' := (List.getElem?_eq_some_iff.mp hi).1
  have hj' := (List.getElem?_eq_some_iff.mp hj).1
  have same : l.length - i = l.length - j := (h.id_eq hi).symm.trans (same.trans (h.id_eq hj))
  obtain rfl : i = j := by omega
  exact Option.some.inj (hi.symm.trans hj)

theorem Numbered.modify {l : List Level} (h : Numbered l) (k : Nat) {f : Level → Level}
    (hf : ∀ level, (f level).id = level.id) : Numbered (l.modify k f) := by
  induction l generalizing k with
  | nil => cases k <;> exact h
  | cons first rest ih =>
    cases k with
    | zero => exact ⟨(hf first).trans h.1, h.2⟩
    | succ k =>
      rw [List.modify_succ_cons]
      refine ⟨?_, ih h.2 k⟩
      rw [List.length_modify]
      exact h.1

theorem mem_modify_enqueue {l : List Level} {k : Nat} {r : Ref} {level : Level}
    (h : level ∈ l.modify k (ScopeStack.enqueue r)) :
    level ∈ l ∨ ∃ old, l[k]? = some old ∧ level = ScopeStack.enqueue r old := by
  obtain ⟨j, hj⟩ := List.mem_iff_getElem?.mp h
  rw [List.getElem?_modify] at hj
  split at hj
  · rename_i hkj
    obtain ⟨old, hold, rfl⟩ := Option.map_eq_some_iff.mp hj
    exact Or.inr ⟨old, hkj ▸ hold, rfl⟩
  · rw [id_map'] at hj
    exact Or.inl (List.mem_iff_getElem?.mpr ⟨j, hj⟩)

theorem perm_flatMap_modify_enqueue {l : List Level} {k : Nat} (hk : k < l.length) (r : Ref) :
    ((l.modify k (ScopeStack.enqueue r)).flatMap Level.queue).Perm
      (r :: l.flatMap Level.queue) := by
  induction l generalizing k with
  | nil => simp at hk
  | cons first rest ih =>
    cases k with
    | zero =>
      simp only [List.modify_zero_cons, List.flatMap_cons, ScopeStack.enqueue, List.append_assoc]
      exact List.perm_middle
    | succ k =>
      simp only [List.modify_succ_cons, List.flatMap_cons]
      have tail := ih (Nat.lt_of_succ_lt_succ hk)
      exact (tail.append_left first.queue).trans List.perm_middle

end Level

namespace ScopeStack

variable {s u : ScopeStack} {home : Home} {r : Ref}

def stack (s : ScopeStack) : List Level := s.active :: s.outer

def waiting (s : ScopeStack) : List Ref := s.stack.flatMap Level.queue

theorem stack_eq (s : ScopeStack) : s.stack = s.active :: s.outer := rfl

def Numbered (s : ScopeStack) : Prop := Level.Numbered s.stack

theorem length_waiting (s : ScopeStack) : s.waiting.length = s.pending := by
  unfold waiting pending stack
  induction s.active :: s.outer with
  | nil => rfl
  | cons level rest ih => rw [List.flatMap_cons, List.length_append, ih, total_cons]

theorem Numbered.current_eq (h : s.Numbered) : s.current = s.depth := h.1

theorem Numbered.pos (h : s.Numbered) : 0 < s.current := by
  rw [h.current_eq]
  exact Nat.succ_pos _

theorem numbered_root : root.Numbered := ⟨rfl, trivial⟩

theorem Numbered.push (h : s.Numbered) : s.push.Numbered := ⟨congrArg (· + 1) h.1, h⟩

theorem waiting_push (s : ScopeStack) : s.push.waiting = s.waiting := rfl

theorem pop_spec {level : Level} (h : s.pop = .ok (level, u)) :
    level = s.active ∧ s.outer = u.stack := by
  unfold pop at h
  split at h
  · cases h
  · rename_i outer
    cases h
    exact ⟨rfl, outer⟩

theorem Numbered.pop {level : Level} (h : s.Numbered) (k : s.pop = .ok (level, u)) :
    u.Numbered := by
  have hnumbered := h.2
  rw [(pop_spec k).2] at hnumbered
  exact hnumbered

theorem waiting_of_pop {level : Level} (h : s.pop = .ok (level, u)) (hq : s.active.queue = []) :
    u.waiting = s.waiting := by
  rw [waiting, waiting, ← (pop_spec h).2, s.stack_eq, List.flatMap_cons, hq, List.nil_append]

/-- Below the active level, a record is put off to the level of its home scope. -/
theorem defer_eq (h : s.Numbered) (pos : 0 < home.scope) (lt : home.scope < s.current) :
    ∃ level, s.outer[s.outer.length - home.scope]? = some level ∧ level.id = home.scope ∧
      (s.defer home r).2 =
        { s with outer := s.outer.modify (s.outer.length - home.scope) (enqueue r) } := by
  rw [h.current_eq] at lt
  have le := Nat.le_of_lt_succ lt
  have inside : s.outer.length - home.scope < s.outer.length := Nat.sub_lt_self pos le
  have found := List.getElem?_eq_getElem inside
  refine ⟨_, found, ?_, ?_⟩
  · rw [h.2.id_eq found]
    exact Nat.sub_sub_self le
  · have position : s.depth - 1 - (home.scope - 1) = s.outer.length - home.scope + 1 := by
      rw [depth, Nat.add_sub_cancel, Nat.sub_sub_right _ pos, Nat.sub_add_comm le]
    unfold defer
    rw [position]

theorem Numbered.defer (h : s.Numbered) (home : Home) (r : Ref) :
    (s.defer home r).2.Numbered := by
  unfold ScopeStack.defer
  split
  · exact h
  · rename_i up _
    refine ⟨?_, h.2.modify up fun _ => rfl⟩
    rw [List.length_modify]
    exact h.1

theorem depth_defer (s : ScopeStack) (home : Home) (r : Ref) :
    (s.defer home r).2.depth = s.depth := by
  unfold defer
  split
  · rfl
  · simp [depth]

theorem current_defer (s : ScopeStack) (home : Home) (r : Ref) :
    (s.defer home r).2.current = s.current := by
  unfold ScopeStack.defer
  split <;> rfl

theorem perm_waiting_defer (h : s.Numbered) (pos : 0 < home.scope) (lt : home.scope < s.current) :
    (s.defer home r).2.waiting.Perm (r :: s.waiting) := by
  obtain ⟨level, found, _, hdefer⟩ := defer_eq (r := r) h pos lt
  have inside := (List.getElem?_eq_some_iff.mp found).1
  rw [hdefer, waiting, waiting, stack, stack, List.flatMap_cons, List.flatMap_cons]
  have outer := Level.perm_flatMap_modify_enqueue inside r
  exact (outer.append_left s.active.queue).trans List.perm_middle

theorem mem_queue_defer (h : s.Numbered) (pos : 0 < home.scope) (lt : home.scope < s.current)
    {level : Level} {x : Ref} (hlevel : level ∈ (s.defer home r).2.stack) (hx : x ∈ level.queue) :
    (x = r ∧ level.id = home.scope) ∨
      ∃ old ∈ s.stack, old.id = level.id ∧ x ∈ old.queue := by
  obtain ⟨old, found, hid, hdefer⟩ := defer_eq (r := r) h pos lt
  rw [hdefer, stack, List.mem_cons] at hlevel
  rcases hlevel with rfl | hlevel
  · exact Or.inr ⟨_, List.mem_cons_self, rfl, hx⟩
  · rcases Level.mem_modify_enqueue hlevel with hmem | ⟨old', found', rfl⟩
    · exact Or.inr ⟨level, List.mem_cons_of_mem _ hmem, rfl, hx⟩
    · rw [found] at found'
      obtain rfl := Option.some.inj found'
      rcases List.mem_append.mp hx with hx | hx
      · exact Or.inr ⟨old, List.mem_cons_of_mem _ (List.mem_of_getElem? found), rfl, hx⟩
      · exact Or.inl ⟨List.mem_singleton.mp hx, hid⟩

theorem nextPending_cons {rest : List Ref} (h : s.active.queue = r :: rest) :
    s.nextPending = (some r, { s with active := { s.active with queue := rest } }) := by
  unfold nextPending
  rw [h]

theorem waiting_cons {rest : List Ref} (h : s.active.queue = r :: rest) :
    s.waiting =
      r :: ({ s with active := { s.active with queue := rest } } : ScopeStack).waiting := by
  rw [waiting, stack, List.flatMap_cons, h, List.cons_append]
  rfl

end ScopeStack

end ScopedHeap
