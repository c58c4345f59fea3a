import ScopedHeap.Proofs.Table.LiveList

/-!
# Links both ways, and cells in use

The links of the live list mirror each other: one cell is the next of another exactly if that one is
its previous (`Listed.next?_eq_some_iff`). This takes that cells off the list have no links
(`Table.Loose`). The number of records stored is the number of cells that are not vacant
(`Table.Filled`).
-/
namespace ScopedHeap.Table

variable {t u : Table} {i j : Nat} {l a b : List Nat} {f : Record → Record} {record : Record}
  {grant : Grant} {r : Ref}

def next? (t : Table) (i : Nat) : Option Nat := (t.recordAt? i).bind (·.header.next)

def prev? (t : Table) (i : Nat) : Option Nat := (t.recordAt? i).bind (·.header.prev)

theorem next?_eq_links? (t : Table) (i : Nat) : t.next? i = (t.links? i).bind (·.2) := by
  unfold next? links?
  cases t.recordAt? i with
  | none => rfl
  | some record => rfl

theorem prev?_eq_links? (t : Table) (i : Nat) : t.prev? i = (t.links? i).bind (·.1) := by
  unfold prev? links?
  cases t.recordAt? i with
  | none => rfl
  | some record => rfl

theorem Listed.links?_eq (h : t.Listed (a ++ i :: b)) :
    t.links? i = some (a.getLast?, b.head?) := by
  have links := (segment_append.mp h.linked).2.1
  rwa [Option.or_none, Option.or_none] at links

/-- The cells that are not on the list have no links. -/
def Loose (t : Table) (l : List Nat) : Prop :=
  ∀ i, i ∉ l → ∀ p, t.links? i = some p → p = (none, none)

theorem Loose.modifyAt (h : t.Loose l) (hf : Record.KeepsLinks f) (i : Nat) :
    (t.modifyAt i f).Loose l := by
  intro j hj p hp
  rw [links?_modifyAt_of_keepsLinks hf] at hp
  exact h j hj p hp

theorem links?_attach_of_ne (hi : j ≠ i) (head : t.head ≠ some j) :
    (t.attach i).links? j = t.links? j := by
  unfold attach
  cases t.recordAt? i with
  | none => rfl
  | some record =>
    cases first : t.head with
    | none => exact links?_modifyAt_of_ne (Ne.symm hi) _
    | some k =>
      have hk : k ≠ j := by
        rintro rfl
        exact head first
      exact (links?_modifyAt_of_ne hk _).trans (links?_modifyAt_of_ne (Ne.symm hi) _)

theorem Loose.attach (h : t.Loose l) (listed : t.Listed l) (i : Nat) :
    (t.attach i).Loose (i :: l) := by
  intro j hj p hp
  rw [List.mem_cons, not_or] at hj
  rw [links?_attach_of_ne hj.1] at hp
  · exact h j hj.2 p hp
  · rw [listed.head]
    intro first
    exact hj.2 (List.mem_of_mem_head? first)

/-- Detaching a cell clears its links and otherwise touches its neighbours only. -/
theorem links?_detach (prev : t.prev? i ≠ some j) (next : t.next? i ≠ some j) :
    (t.detach i).links? j =
      (t.modifyAt i fun r => (r.setPrev none).setNext none).links? j := by
  unfold prev? at prev
  unfold next? at next
  unfold detach
  cases hrecord : t.recordAt? i with
  | none =>
    rw [modifyAt_eq_self]
    intro record h
    rw [hrecord] at h
    cases h
  | some record =>
    rw [hrecord] at prev next
    -- joining the neighbours leaves other cells alone
    have joined : ∀ (v : Table) (g : Record → Record) (k : Nat), k ≠ j →
        (v.modifyAt k g).links? j = v.links? j := fun v g k hk => links?_modifyAt_of_ne hk g
    dsimp only
    cases hprev : record.header.prev with
    | none =>
      by_cases first : t.head = some i
      · rw [if_pos first]
        cases hnext : record.header.next with
        | none => rfl
        | some k => exact joined _ _ k fun e => next (hnext.trans (congrArg some e))
      · rw [if_neg first]
    | some k =>
      have before := joined (t.modifyAt i fun r => (r.setPrev none).setNext none)
        (Record.setNext record.header.next) k fun e => prev (hprev.trans (congrArg some e))
      cases hnext : record.header.next with
      | none =>
        rw [hnext] at before
        exact before
      | some k' =>
        rw [hnext] at before
        exact (joined _ _ k' fun e => next (hnext.trans (congrArg some e))).trans before

theorem Loose.detach (h : t.Loose l) (listed : t.Listed l) (hi : i ∈ l) :
    (t.detach i).Loose (l.erase i) := by
  obtain ⟨a, b, rfl⟩ := List.append_of_mem hi
  have links := listed.links?_eq
  obtain ⟨_, nodup, apart⟩ := List.nodup_append.mp listed.nodup
  have hia : i ∉ a := fun hmem => apart i hmem i List.mem_cons_self rfl
  have hib : i ∉ b := (List.nodup_cons.mp nodup).1
  intro j hj p hp
  rw [List.erase_append_right _ hia, List.erase_cons_head, List.mem_append, not_or] at hj
  have prev : t.prev? i ≠ some j := by
    rw [prev?_eq_links?, links]
    exact fun last => hj.1 (List.mem_of_getLast? last)
  have next : t.next? i ≠ some j := by
    rw [next?_eq_links?, links]
    exact fun first => hj.2 (List.mem_of_mem_head? first)
  rw [links?_detach prev next] at hp
  by_cases e : j = i
  · rw [e, links?, recordAt?_modifyAt, if_pos rfl] at hp
    obtain ⟨record, hrecord, rfl⟩ := Option.map_eq_some_iff.mp hp
    obtain ⟨old, _, rfl⟩ := Option.map_eq_some_iff.mp hrecord
    rfl
  · rw [links?_modifyAt_of_ne (Ne.symm e)] at hp
    refine h j ?_ p hp
    rw [List.mem_append, List.mem_cons]
    rintro (mem | mem | mem)
    · exact hj.1 mem
    · exact e mem
    · exact hj.2 mem

theorem Loose.insert (h : t.Loose l) (k : Inserted t record r u)
    (unlinked : record.header.prev = none ∧ record.header.next = none) : u.Loose l := by
  intro j hj p hp
  rw [links?, k.recordAt?] at hp
  split at hp
  · cases hp
    exact Prod.ext unlinked.1 unlinked.2
  · exact h j hj p hp

theorem Loose.remove (h : t.Loose l) (k : Removed t record r u) : u.Loose l := by
  intro j hj p hp
  rw [links?, k.recordAt?] at hp
  split at hp
  · cases hp
  · exact h j hj p hp

/-- The previous links mirror the next links. -/
theorem Listed.next?_eq_some_iff (h : t.Listed l) (loose : t.Loose l) (i j : Nat) :
    t.next? i = some j ↔ t.prev? j = some i := by
  have onList : ∀ k p, t.links? k = some p → p ≠ (none, none) → ∃ a b, l = a ++ k :: b := by
    intro k p hp linked
    by_cases hk : k ∈ l
    · exact List.append_of_mem hk
    · exact absurd (loose k hk p hp) linked
  constructor
  · intro next
    rw [next?_eq_links?] at next
    obtain ⟨p, hp, second⟩ := Option.bind_eq_some_iff.mp next
    obtain ⟨a, b, rfl⟩ := onList i p hp (by rintro rfl; cases second)
    rw [h.links?_eq] at hp
    obtain rfl := Option.some.inj hp
    cases b with
    | nil => cases second
    | cons k b =>
      cases second
      have whole : t.Listed ((a ++ [i]) ++ j :: b) := by rwa [List.append_assoc]
      rw [prev?_eq_links?, whole.links?_eq, Option.bind_some, List.getLast?_concat]
  · intro prev
    rw [prev?_eq_links?] at prev
    obtain ⟨p, hp, first⟩ := Option.bind_eq_some_iff.mp prev
    obtain ⟨a, b, rfl⟩ := onList j p hp (by rintro rfl; cases first)
    rw [h.links?_eq] at hp
    obtain rfl := Option.some.inj hp
    rcases List.eq_nil_or_concat' a with rfl | ⟨a, k, rfl⟩
    · cases first
    · rw [List.getLast?_concat] at first
      cases first
      have whole : t.Listed (a ++ i :: j :: b) := by rwa [List.append_assoc] at h
      rw [next?_eq_links?, whole.links?_eq]
      rfl

/-- What is stored and what is vacant make up all cells. -/
def Filled (t : Table) : Prop := t.occupied + t.free.length = t.cells.size

theorem occupied_attach (t : Table) (i : Nat) : (t.attach i).occupied = t.occupied := by
  unfold attach
  cases t.recordAt? i with
  | none => rfl
  | some record =>
    cases t.head with
    | none => rfl
    | some first => rfl

theorem occupied_detach (t : Table) (i : Nat) : (t.detach i).occupied = t.occupied := by
  unfold detach
  cases t.recordAt? i with
  | none => rfl
  | some record =>
    dsimp only
    cases record.header.prev with
    | none =>
      by_cases first : t.head = some i
      · rw [if_pos first]
        cases record.header.next with
        | none => rfl
        | some k => rfl
      · rw [if_neg first]
        rfl
    | some k =>
      cases record.header.next with
      | none => rfl
      | some k' => rfl

theorem Filled.modifyAt (h : t.Filled) (i : Nat) (f : Record → Record) :
    (t.modifyAt i f).Filled := by
  unfold Filled
  rw [free_modifyAt, size_modifyAt]
  exact h

theorem Filled.relink (h : t.Filled) (k : Relinks t u) (same : u.occupied = t.occupied) :
    u.Filled := by
  unfold Filled
  rw [same, k.free, k.size]
  exact h

theorem Filled.attach (h : t.Filled) (i : Nat) : (t.attach i).Filled :=
  h.relink (t.relinks_attach i) (t.occupied_attach i)

theorem Filled.detach (h : t.Filled) (i : Nat) : (t.detach i).Filled :=
  h.relink (t.relinks_detach i) (t.occupied_detach i)

theorem occupied_insert (inserted : t.insert grant record = .ok (r, u)) :
    u.occupied = t.occupied + 1 := by
  unfold Table.insert at inserted
  split at inserted
  · cases inserted
    rfl
  · split at inserted
    · cases inserted
      rfl
    · cases inserted

theorem Filled.insert (h : t.Filled) (inserted : t.insert grant record = .ok (r, u)) :
    u.Filled := by
  unfold Filled at h
  unfold Table.insert at inserted
  split at inserted
  · rename_i free
    cases inserted
    rw [free, List.length_cons] at h
    unfold Filled
    dsimp only
    rw [Array.size_setIfInBounds]
    omega
  · rename_i free
    split at inserted
    · cases inserted
      rw [free] at h
      unfold Filled
      dsimp only
      rw [free, Array.size_push]
      rw [List.length_nil] at h ⊢
      omega
    · cases inserted

/-- With less records than there are indices there is room for one more, if there is memory. -/
theorem Filled.insert_eq_ok (h : t.Filled) (room : t.occupied < wordBound)
    (granted : grant.covers cellSize = true) (record : Record) :
    ∃ r u, t.insert grant record = .ok (r, u) := by
  unfold Filled at h
  unfold Table.insert
  split
  · exact ⟨_, _, rfl⟩
  · rename_i free
    rw [free, List.length_nil] at h
    rw [if_pos ⟨by omega, granted⟩]
    exact ⟨_, _, rfl⟩

def storedCount (t : Table) : Nat :=
  (List.range t.cells.size).countP fun i => (t.recordAt? i).isSome

theorem Vacant.storedCount_add (vacant : t.Vacant) :
    t.storedCount + t.free.length = t.cells.size := by
  have perm : t.free.Perm
      ((List.range t.cells.size).filter fun i => ¬ (t.recordAt? i).isSome = true) := by
    rw [List.perm_ext_iff_of_nodup vacant.nodup (List.nodup_range.filter _)]
    intro i
    simp [vacant.mem_free]
  have both := List.length_eq_countP_add_countP (l := List.range t.cells.size)
    fun i => (t.recordAt? i).isSome
  rw [List.length_range] at both
  rw [perm.length_eq, ← List.countP_eq_length_filter, storedCount]
  exact both.symm

theorem Filled.occupied_eq (h : t.Filled) (vacant : t.Vacant) : t.occupied = t.storedCount := by
  unfold Filled at h
  have all := vacant.storedCount_add
  omega

theorem Filled.occupied_pos (h : t.Filled) (vacant : t.Vacant) (found : t.find? r = some record) :
    0 < t.occupied := by
  have there := (find?_eq_some.mp found).2
  rw [h.occupied_eq vacant]
  exact List.countP_pos_iff.mpr ⟨r.index, List.mem_range.mpr (lt_size_of_recordAt? there), by
    rw [there]
    rfl⟩

theorem Filled.occupied_remove (h : t.Filled) (vacant : t.Vacant)
    (removed : t.remove r = .ok (record, u)) : u.occupied + 1 = t.occupied := by
  have found := (remove_spec vacant removed).1.found
  have pos := h.occupied_pos vacant found
  unfold Table.remove at removed
  rw [found] at removed
  cases removed
  dsimp only
  omega

theorem Filled.remove (h : t.Filled) (vacant : t.Vacant)
    (removed : t.remove r = .ok (record, u)) : u.Filled := by
  have found := (remove_spec vacant removed).1.found
  have less := h.occupied_remove vacant removed
  unfold Filled at h
  unfold Table.remove at removed
  rw [found] at removed
  cases removed
  unfold Filled
  dsimp only at less ⊢
  rw [Array.size_setIfInBounds, List.length_cons]
  omega

def stateCount (t : Table) (state : State) : Nat :=
  (List.range t.cells.size).countP fun i => (t.recordAt? i).any (·.header.state = state)

theorem storedCount_eq (t : Table) :
    t.storedCount = t.stateCount .live + t.stateCount .pending + t.stateCount .static := by
  unfold storedCount stateCount
  induction List.range t.cells.size with
  | nil => rfl
  | cons i rest ih =>
    rw [List.countP_cons, List.countP_cons, List.countP_cons, List.countP_cons, ih]
    cases t.recordAt? i with
    | none => rfl
    | some record =>
      cases state : record.header.state with
      | live | pending | static =>
        simp [state]
        omega

end ScopedHeap.Table
