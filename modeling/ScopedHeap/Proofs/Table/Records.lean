import ScopedHeap.Table

/-!
# What the table holds

Each change of a table is described by what `find?` answers afterwards. The links of the live list
are kept inside the records, so most statements are about `bare`, the record without its links:
attaching and detaching change nothing there.

`Table.Vacant` says that the free list has every vacant cell once. A new record then takes a cell
in which no reference finds anything.
-/
namespace ScopedHeap

namespace Record

/-- A record without its links. -/
def core (r : Record) : Record := (r.setPrev none).setNext none

@[simp] theorem payload_core (r : Record) : r.core.payload = r.payload := rfl

@[simp] theorem refcount_core (r : Record) : r.core.header.refcount = r.header.refcount := rfl

@[simp] theorem creationScope_core (r : Record) :
    r.core.header.creationScope = r.header.creationScope := rfl

@[simp] theorem state_core (r : Record) : r.core.header.state = r.header.state := rfl

@[simp] theorem hook_core (r : Record) : r.core.header.hook = r.header.hook := rfl

/-- Holds of changes that touch nothing but the links. -/
def KeepsCore (f : Record → Record) : Prop := ∀ r, (f r).core = r.core

/-- Holds of changes that leave the links alone. -/
def KeepsLinks (f : Record → Record) : Prop :=
  ∀ r, (f r).header.prev = r.header.prev ∧ (f r).header.next = r.header.next

theorem keepsCore_setPrev (link : Option Nat) : KeepsCore (setPrev link) := fun _ => rfl

theorem keepsCore_setNext (link : Option Nat) : KeepsCore (setNext link) := fun _ => rfl

theorem keepsCore_setLinks (prev next : Option Nat) :
    KeepsCore fun r => (r.setPrev prev).setNext next := fun _ => rfl

end Record

namespace Table

variable {t u : Table} {r x : Ref} {i j : Nat} {grant : Grant} {record : Record}
  {f : Record → Record}

def generation? (t : Table) (i : Nat) : Option Nat := t.cells[i]?.map Cell.generation

theorem find?_eq (t : Table) (r : Ref) :
    t.find? r =
      if t.generation? r.index = some r.generation then t.recordAt? r.index else none := by
  unfold find? generation? recordAt?
  cases t.cells[r.index]? with
  | none => simp
  | some cell => simp

theorem find?_eq_some : t.find? r = some record ↔
    t.generation? r.index = some r.generation ∧ t.recordAt? r.index = some record := by
  rw [find?_eq]
  by_cases h : t.generation? r.index = some r.generation <;> simp [h]

theorem find?_eq_none_of_vacant (h : t.recordAt? r.index = none) : t.find? r = none := by
  rw [find?_eq, h, ite_self]

theorem exists_find? (h : t.recordAt? i = some record) :
    ∃ r : Ref, r.index = i ∧ t.find? r = some record := by
  obtain ⟨cell, hc, hr⟩ := Option.bind_eq_some_iff.mp h
  refine ⟨⟨i, cell.generation⟩, rfl, find?_eq_some.mpr ⟨?_, h⟩⟩
  simp [generation?, hc]

theorem eq_of_index_eq {record' : Record} (hr : t.find? r = some record)
    (hx : t.find? x = some record') (h : x.index = r.index) : x = r := by
  have hg := (find?_eq_some.mp hr).1
  have hg' := (find?_eq_some.mp hx).1
  rw [h, hg] at hg'
  cases x
  cases r
  simp_all

theorem lt_size_of_recordAt? (h : t.recordAt? i = some record) : i < t.cells.size := by
  obtain ⟨cell, hc, _⟩ := Option.bind_eq_some_iff.mp h
  exact (Array.getElem?_eq_some_iff.mp hc).1

/-- What holds of every record can be told cell by cell. -/
theorem forall_find?_iff {P : Record → Prop} : (∀ r record, t.find? r = some record → P record) ↔
    ∀ i < t.cells.size, ∀ record ∈ t.recordAt? i, P record := by
  constructor
  · intro h i _ record there
    obtain ⟨r, _, found⟩ := exists_find? there
    exact h r record found
  · intro h r record found
    have there := (find?_eq_some.mp found).2
    exact h r.index (lt_size_of_recordAt? there) record there

theorem find_eq_ok_iff : t.find r = .ok record ↔ t.find? r = some record := by
  unfold find
  cases t.find? r <;> simp

@[simp] theorem free_modifyAt (t : Table) (i : Nat) (f : Record → Record) :
    (t.modifyAt i f).free = t.free := rfl

theorem liveCount_modifyAt (t : Table) (i : Nat) (f : Record → Record) :
    (t.modifyAt i f).liveCount = t.liveCount := rfl

@[simp] theorem size_modifyAt (t : Table) (i : Nat) (f : Record → Record) :
    (t.modifyAt i f).cells.size = t.cells.size := by
  simp [modifyAt]

@[simp] theorem generation?_modifyAt (t : Table) (i j : Nat) (f : Record → Record) :
    (t.modifyAt i f).generation? j = t.generation? j := by
  simp only [generation?, modifyAt, Array.getElem?_modify]
  split <;> simp [Function.comp_def]

theorem recordAt?_modifyAt (t : Table) (i j : Nat) (f : Record → Record) :
    (t.modifyAt i f).recordAt? j = if i = j then (t.recordAt? j).map f else t.recordAt? j := by
  simp only [recordAt?, modifyAt, Array.getElem?_modify]
  split
  · cases t.cells[j]? <;> simp
  · rfl

theorem find?_modifyAt (t : Table) (i : Nat) (f : Record → Record) (x : Ref) :
    (t.modifyAt i f).find? x = if i = x.index then (t.find? x).map f else t.find? x := by
  rw [find?_eq, find?_eq, generation?_modifyAt, recordAt?_modifyAt]
  split <;> split <;> simp

theorem find?_modifyAt_of_find? (h : t.find? r = some record) (f : Record → Record) (x : Ref) :
    (t.modifyAt r.index f).find? x = if x = r then some (f record) else t.find? x := by
  rw [find?_modifyAt]
  by_cases hx : x = r
  · simp [hx, h]
  · rw [if_neg hx]
    split
    · rename_i hi
      cases hf : t.find? x with
      | none => rfl
      | some other => exact absurd (eq_of_index_eq h hf hi.symm) hx
    · rfl

theorem find?_modifyAt_self (h : t.find? r = some record) (f : Record → Record) :
    (t.modifyAt r.index f).find? r = some (f record) := by
  rw [find?_modifyAt_of_find? h, if_pos rfl]

/-- Only what a change does to the record of the cell matters. -/
theorem modifyAt_congr {g : Record → Record}
    (h : ∀ record, t.recordAt? i = some record → f record = g record) :
    t.modifyAt i f = t.modifyAt i g := by
  have hc : t.cells.modify i (fun cell => { cell with record := cell.record.map f }) =
      t.cells.modify i (fun cell => { cell with record := cell.record.map g }) := by
    apply Array.ext_getElem?
    intro j
    rw [Array.getElem?_modify, Array.getElem?_modify]
    split
    · rename_i hij
      subst hij
      cases hcell : t.cells[i]? with
      | none => rfl
      | some cell =>
        obtain ⟨generation, content⟩ := cell
        cases content with
        | none => rfl
        | some record => simp [h record (by simp [recordAt?, hcell])]
    · rfl
  simp only [modifyAt, hc]

theorem modifyAt_id (t : Table) (i : Nat) : t.modifyAt i id = t := by
  have hc :
      t.cells.modify i (fun cell => { cell with record := cell.record.map id }) = t.cells := by
    apply Array.ext_getElem?
    intro j
    simp [Array.getElem?_modify]
  simp only [modifyAt, hc]

theorem modifyAt_eq_self (h : ∀ record, t.recordAt? i = some record → f record = record) :
    t.modifyAt i f = t :=
  (modifyAt_congr h).trans (t.modifyAt_id i)

theorem modifyAt_modifyAt (t : Table) (i : Nat) (f g : Record → Record) :
    (t.modifyAt i f).modifyAt i g = t.modifyAt i (g ∘ f) := by
  have hc :
      (t.modifyAt i f).cells.modify i (fun cell => { cell with record := cell.record.map g }) =
        t.cells.modify i (fun cell => { cell with record := cell.record.map (g ∘ f) }) := by
    apply Array.ext_getElem?
    intro j
    simp only [modifyAt, Array.getElem?_modify]
    split <;> simp [Function.comp_def]
  simp only [modifyAt] at hc ⊢
  rw [hc]

theorem modifyAt_comm (t : Table) (i j : Nat) {g : Record → Record}
    (comm : ∀ record, f (g record) = g (f record)) :
    (t.modifyAt i f).modifyAt j g = (t.modifyAt j g).modifyAt i f := by
  by_cases hij : i = j
  · rw [hij, modifyAt_modifyAt, modifyAt_modifyAt]
    exact modifyAt_congr fun record _ => (comm record).symm
  · have hc :
        (t.modifyAt i f).cells.modify j (fun cell => { cell with record := cell.record.map g }) =
        (t.modifyAt j g).cells.modify i
          (fun cell => { cell with record := cell.record.map f }) := by
      apply Array.ext_getElem?
      intro k
      simp only [modifyAt, Array.getElem?_modify]
      by_cases hi : i = k <;> by_cases hj : j = k
      · exact absurd (hi.trans hj.symm) hij
      all_goals simp [hi, hj]
    simp only [modifyAt] at hc ⊢
    rw [hc]

def bare (t : Table) (r : Ref) : Option Record := (t.find? r).map Record.core

theorem bare_of_find? (h : t.find? r = some record) : t.bare r = some record.core := by
  rw [bare, h, Option.map_some]

theorem bare_eq_some_iff {shown : Record} :
    t.bare r = some shown ↔ ∃ record, t.find? r = some record ∧ record.core = shown :=
  Option.map_eq_some_iff

theorem bare_modifyAt_of_find? (h : t.find? r = some record) (f : Record → Record) (x : Ref) :
    (t.modifyAt r.index f).bare x = if x = r then some (f record).core else t.bare x := by
  rw [bare, find?_modifyAt_of_find? h, bare]
  split <;> rfl

/-- The two tables differ in their links at most. -/
structure Relinks (t u : Table) : Prop where
  free : u.free = t.free
  size : u.cells.size = t.cells.size
  generation : ∀ i, u.generation? i = t.generation? i
  records : ∀ i, (u.recordAt? i).map Record.core = (t.recordAt? i).map Record.core

theorem Relinks.refl (t : Table) : Relinks t t := ⟨rfl, rfl, fun _ => rfl, fun _ => rfl⟩

theorem Relinks.trans {v : Table} (h : Relinks t u) (k : Relinks u v) : Relinks t v where
  free := k.free.trans h.free
  size := k.size.trans h.size
  generation := fun i => (k.generation i).trans (h.generation i)
  records := fun i => (k.records i).trans (h.records i)

theorem relinks_modifyAt (h : Record.KeepsCore f) (t : Table) (i : Nat) :
    Relinks t (t.modifyAt i f) where
  free := rfl
  size := t.size_modifyAt i f
  generation := fun j => t.generation?_modifyAt i j f
  records := by
    intro j
    rw [recordAt?_modifyAt]
    split
    · cases t.recordAt? j with
      | none => rfl
      | some record => exact congrArg some (h record)
    · rfl

/-- Moving the head and the count of the live list is no change to the records. -/
theorem Relinks.relist (h : Relinks t u) (head : Option Nat) (count : Nat) :
    Relinks t { u with head := head, liveCount := count } :=
  ⟨h.free, h.size, h.generation, h.records⟩

theorem Relinks.bare_eq (h : Relinks t u) (x : Ref) : u.bare x = t.bare x := by
  rw [bare, bare, find?_eq, find?_eq, h.generation]
  split
  · exact h.records _
  · rfl

theorem Relinks.recordAt?_eq_none_iff (h : Relinks t u) (i : Nat) :
    u.recordAt? i = none ↔ t.recordAt? i = none := by
  have hi := h.records i
  cases hu : u.recordAt? i <;> cases ht : t.recordAt? i <;> simp_all

theorem relinks_attach (t : Table) (i : Nat) : Relinks t (t.attach i) := by
  unfold attach
  split
  · exact Relinks.refl t
  · have linked := relinks_modifyAt (Record.keepsCore_setLinks none t.head) t i
    split
    · exact (linked.trans (relinks_modifyAt (Record.keepsCore_setPrev _) _ _)).relist _ _
    · exact linked.relist _ _

theorem relinks_detach (t : Table) (i : Nat) : Relinks t (t.detach i) := by
  unfold detach
  split
  · exact Relinks.refl t
  · have cleared := relinks_modifyAt (Record.keepsCore_setLinks none none) t i
    dsimp only
    split
    · rename_i record _ _ before _
      have bridged := cleared.trans
        (relinks_modifyAt (Record.keepsCore_setNext record.header.next) _ before)
      split
      · exact (bridged.trans (relinks_modifyAt (Record.keepsCore_setPrev _) _ _)).relist _ _
      · exact bridged.relist _ _
    · split
      · split
        · exact (cleared.trans (relinks_modifyAt (Record.keepsCore_setPrev _) _ _)).relist _ _
        · exact cleared.relist _ _
      · exact cleared

@[simp] theorem bare_attach (t : Table) (i : Nat) (x : Ref) : (t.attach i).bare x = t.bare x :=
  (t.relinks_attach i).bare_eq x

@[simp] theorem bare_detach (t : Table) (i : Nat) (x : Ref) : (t.detach i).bare x = t.bare x :=
  (t.relinks_detach i).bare_eq x

/-- The free list has the vacant cells, each once. -/
structure Vacant (t : Table) : Prop where
  nodup : t.free.Nodup
  mem_free : ∀ i, i ∈ t.free ↔ i < t.cells.size ∧ t.recordAt? i = none

theorem Vacant.relink (h : t.Vacant) (k : Relinks t u) : u.Vacant where
  nodup := by rw [k.free]; exact h.nodup
  mem_free := by
    intro i
    rw [k.free, k.size, k.recordAt?_eq_none_iff, h.mem_free]

theorem Vacant.modifyAt (h : t.Vacant) (i : Nat) (f : Record → Record) :
    (t.modifyAt i f).Vacant where
  nodup := h.nodup
  mem_free := by
    intro j
    rw [free_modifyAt, size_modifyAt, recordAt?_modifyAt, h.mem_free]
    split <;> simp

/-- The tables agree but for one cell, which has this generation and content in the second. -/
def CellSet (t : Table) (i generation : Nat) (content : Option Record) (u : Table) : Prop :=
  ∀ j, u.cells[j]? = if j = i then some ⟨generation, content⟩ else t.cells[j]?

theorem cellSet_of_lt {generation : Nat} {content : Option Record} (hi : i < t.cells.size)
    (hu : u.cells = t.cells.setIfInBounds i ⟨generation, content⟩) :
    CellSet t i generation content u := by
  intro j
  rw [hu, Array.getElem?_setIfInBounds, if_pos hi]
  by_cases hj : j = i
  · rw [if_pos hj.symm, if_pos hj]
  · rw [if_neg (Ne.symm hj), if_neg hj]

theorem CellSet.recordAt? {generation : Nat} {content : Option Record}
    (h : CellSet t i generation content u) (j : Nat) :
    u.recordAt? j = if j = i then content else t.recordAt? j := by
  rw [Table.recordAt?, h j]
  split <;> rfl

theorem CellSet.find? {generation : Nat} {content : Option Record}
    (h : CellSet t i generation content u) (x : Ref) :
    u.find? x =
      if x.index = i then if generation = x.generation then content else none else t.find? x := by
  by_cases hx : x.index = i
  · simp only [Table.find?, h x.index, if_pos hx]
  · simp only [Table.find?, h x.index, if_neg hx]

/-- What is known of a table into which a record has been put under the reference `r`. -/
structure Inserted (t : Table) (record : Record) (r : Ref) (u : Table) : Prop where
  vacant : t.recordAt? r.index = none
  recordAt? : ∀ j, u.recordAt? j = if j = r.index then some record else t.recordAt? j
  find? : ∀ x, u.find? x = if x = r then some record else t.find? x
  head : u.head = t.head
  liveCount : u.liveCount = t.liveCount

theorem Inserted.bare_eq (h : Inserted t record r u) (x : Ref) :
    u.bare x = if x = r then some record.core else t.bare x := by
  rw [bare, h.find?, bare]
  split <;> rfl

theorem Inserted.bare_eq_none (h : Inserted t record r u) : t.bare r = none := by
  rw [bare, find?_eq_none_of_vacant h.vacant]
  rfl

theorem CellSet.find?_inserted {generation : Nat} (h : CellSet t i generation (some record) u)
    (hi : t.recordAt? i = none) (x : Ref) :
    u.find? x = if x = ⟨i, generation⟩ then some record else t.find? x := by
  rw [h.find?]
  by_cases hxi : x.index = i
  · have gone : t.find? x = none := find?_eq_none_of_vacant (by rw [hxi, hi])
    have hx : x = ⟨i, generation⟩ ↔ generation = x.generation := by
      rw [← hxi]
      constructor
      · intro e
        rw [e]
      · intro e
        rw [e]
    simp only [if_pos hxi, gone, hx]
  · have hx : x ≠ ⟨i, generation⟩ := fun e => hxi (congrArg Ref.index e)
    rw [if_neg hxi, if_neg hx]

theorem insert_spec (hv : t.Vacant) (h : t.insert grant record = .ok (r, u)) :
    Inserted t record r u ∧ u.Vacant := by
  unfold insert at h
  split at h
  · rename_i i rest hfree
    simp only [Except.ok.injEq, Prod.mk.injEq] at h
    obtain ⟨rfl, hu⟩ := h
    obtain ⟨hi, hnone⟩ := (hv.mem_free i).mp (by simp [hfree])
    have cells := cellSet_of_lt hi (congrArg Table.cells hu.symm)
    have hnodup := hv.nodup
    rw [hfree, List.nodup_cons] at hnodup
    refine ⟨⟨hnone, cells.recordAt?, cells.find?_inserted hnone, ?_, ?_⟩, ⟨?_, ?_⟩⟩
    · rw [← hu]
    · rw [← hu]
    · rw [← hu]
      exact hnodup.2
    · intro j
      have hmem := hv.mem_free j
      rw [hfree, List.mem_cons] at hmem
      rw [cells.recordAt?, show u.free = rest by rw [← hu],
        show u.cells.size = t.cells.size by rw [← hu, Array.size_setIfInBounds]]
      by_cases hj : j = i
      · simp [hj, hnodup.1]
      · rw [if_neg hj, ← hmem]
        simp [hj]
  · split at h
    · simp only [Except.ok.injEq, Prod.mk.injEq] at h
      obtain ⟨rfl, hu⟩ := h
      have hnone : t.recordAt? t.cells.size = none := by simp [recordAt?]
      have cells : CellSet t t.cells.size 0 (some record) u := by
        intro j
        rw [← hu, Array.getElem?_push]
      refine ⟨⟨hnone, cells.recordAt?, cells.find?_inserted hnone, ?_, ?_⟩, ⟨?_, ?_⟩⟩
      · rw [← hu]
      · rw [← hu]
      · rw [← hu]
        exact hv.nodup
      · intro j
        rw [cells.recordAt?, show u.free = t.free by rw [← hu], hv.mem_free,
          show u.cells.size = t.cells.size + 1 by rw [← hu, Array.size_push]]
        by_cases hj : j = t.cells.size
        · simp [hj]
        · rw [if_neg hj]
          constructor
          · rintro ⟨hlt, hn⟩
            exact ⟨by omega, hn⟩
          · rintro ⟨hlt, hn⟩
            exact ⟨by omega, hn⟩
    · simp at h

/-- What is known of a table from which the record under `r` has been taken. -/
structure Removed (t : Table) (record : Record) (r : Ref) (u : Table) : Prop where
  found : t.find? r = some record
  recordAt? : ∀ j, u.recordAt? j = if j = r.index then none else t.recordAt? j
  find? : ∀ x, u.find? x = if x = r then none else t.find? x
  head : u.head = t.head
  liveCount : u.liveCount = t.liveCount

theorem Removed.bare_eq (h : Removed t record r u) (x : Ref) :
    u.bare x = if x = r then none else t.bare x := by
  rw [bare, h.find?, bare]
  split <;> rfl

theorem remove_eq_ok (h : t.find? r = some record) : ∃ u, t.remove r = .ok (record, u) := by
  unfold remove
  rw [h]
  exact ⟨_, rfl⟩

theorem remove_spec (hv : t.Vacant) (h : t.remove r = .ok (record, u)) :
    Removed t record r u ∧ u.Vacant := by
  unfold remove at h
  split at h
  · rename_i found hfound
    simp only [Except.ok.injEq, Prod.mk.injEq] at h
    obtain ⟨rfl, hu⟩ := h
    have hrec := (find?_eq_some.mp hfound).2
    have cells := cellSet_of_lt (lt_size_of_recordAt? hrec) (congrArg Table.cells hu.symm)
    refine ⟨⟨hfound, cells.recordAt?, ?_, ?_, ?_⟩, ⟨?_, ?_⟩⟩
    · intro x
      rw [cells.find?, ite_self]
      by_cases hxr : x = r
      · rw [if_pos hxr, if_pos (congrArg Ref.index hxr)]
      · rw [if_neg hxr]
        split
        · rename_i hxi
          cases hx : t.find? x with
          | none => rfl
          | some other => exact absurd (eq_of_index_eq hfound hx hxi) hxr
        · rfl
    · rw [← hu]
    · rw [← hu]
    · rw [← hu]
      refine List.nodup_cons.mpr ⟨?_, hv.nodup⟩
      intro hmem
      rw [((hv.mem_free _).mp hmem).2] at hrec
      cases hrec
    · intro j
      rw [cells.recordAt?, show u.free = r.index :: t.free by rw [← hu], List.mem_cons,
        hv.mem_free, show u.cells.size = t.cells.size by rw [← hu, Array.size_setIfInBounds]]
      by_cases hj : j = r.index
      · simp [hj, lt_size_of_recordAt? hrec]
      · simp [hj]
  · simp at h

def generationAt (t : Table) (i : Nat) : Nat := (t.generation? i).getD 0

theorem generationAt_of_find? (h : t.find? r = some record) :
    t.generationAt r.index = r.generation := by
  rw [generationAt, (find?_eq_some.mp h).1, Option.getD_some]

@[simp] theorem generationAt_modifyAt (t : Table) (i j : Nat) (f : Record → Record) :
    (t.modifyAt i f).generationAt j = t.generationAt j := by
  rw [generationAt, generation?_modifyAt, generationAt]

theorem Relinks.generationAt_eq (h : Relinks t u) (i : Nat) :
    u.generationAt i = t.generationAt i := by
  rw [generationAt, h.generation, generationAt]

@[simp] theorem generationAt_attach (t : Table) (i j : Nat) :
    (t.attach i).generationAt j = t.generationAt j := (t.relinks_attach i).generationAt_eq j

@[simp] theorem generationAt_detach (t : Table) (i j : Nat) :
    (t.detach i).generationAt j = t.generationAt j := (t.relinks_detach i).generationAt_eq j

theorem generationAt_insert (h : t.insert grant record = .ok (r, u)) (i : Nat) :
    u.generationAt i = t.generationAt i := by
  unfold insert at h
  split at h
  · rename_i index rest _
    cases h
    unfold generationAt generation?
    dsimp only
    rw [Array.getElem?_setIfInBounds]
    by_cases e : index = i
    · subst e
      by_cases inside : index < t.cells.size
      · simp [inside]
      · simp [inside]
    · rw [if_neg e]
  · split at h
    · cases h
      unfold generationAt generation?
      dsimp only
      rw [Array.getElem?_push]
      by_cases e : i = t.cells.size
      · simp [e]
      · rw [if_neg e]
    · cases h

theorem generationAt_remove (h : t.remove r = .ok (record, u)) (i : Nat) :
    u.generationAt i =
      if r.index = i then (t.generationAt i + 1) % wordBound else t.generationAt i := by
  unfold remove at h
  split at h
  · rename_i found hfound
    cases h
    have inside := lt_size_of_recordAt? (find?_eq_some.mp hfound).2
    have current := generationAt_of_find? hfound
    unfold generationAt generation? at current ⊢
    dsimp only
    rw [Array.getElem?_setIfInBounds]
    by_cases e : r.index = i
    · rw [if_pos e, if_pos inside, if_pos e, ← e, current]
      rfl
    · rw [if_neg e, if_neg e]
  · cases h

end Table

end ScopedHeap
