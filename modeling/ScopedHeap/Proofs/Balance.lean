import Mathlib.Algebra.BigOperators.Intervals
import Mathlib.Algebra.Order.BigOperators.Group.Finset
import ScopedHeap.Proofs.Fate

/-!
# The balance of counts and slots

Every deed gains and loses references: one that is counted, or that leaves its slot, is gained; one
that is given up, or goes into a slot, is lost. Over any path the count of a record and the slots
that refer to it change by what is gained and lost (`Path.balance`). Nothing is assumed of the path,
so it is the whole difference between a program that counts well and one that does not.
-/
namespace ScopedHeap

open Finset (range)

/-- A total is a sum over positions, of which there may be more than the list has. -/
theorem total_eq_sum {α : Type} (f : α → Nat) (l : List α) {n : Nat} (h : l.length ≤ n) :
    total f l = ∑ i ∈ range n, l[i]?.elim 0 f := by
  induction l generalizing n with
  | nil => simp
  | cons a l ih =>
    rcases Nat.exists_eq_add_one_of_ne_zero (Nat.ne_zero_of_lt h) with ⟨k, rfl⟩
    rw [Finset.sum_range_succ', total_cons, ih (Nat.le_of_succ_le_succ h), Nat.add_comm]
    rfl

namespace Table

variable {t u : Table} {r x : Ref} {i : Nat} {record : Record} {f : Record → Record}

/-- Number of slots that refer to `x`, over all records of the table. -/
def slotCount (t : Table) (x : Ref) : Nat :=
  total (fun cell => cell.record.elim 0 (·.payload.refs.count x)) t.cells.toList

private def heldAt (t : Table) (x : Ref) (i : Nat) : Nat :=
  (t.recordAt? i).elim 0 (·.payload.refs.count x)

private theorem slotCount_eq_sum {n : Nat} (h : t.cells.size ≤ n) (x : Ref) :
    t.slotCount x = ∑ i ∈ range n, t.heldAt x i := by
  rw [slotCount, total_eq_sum _ _ (by simpa using h)]
  apply Finset.sum_congr rfl
  intro i _
  rw [heldAt, recordAt?, Array.getElem?_toList]
  cases t.cells[i]? <;> rfl

theorem slotCount_congr
    (h : ∀ j, (u.recordAt? j).map Record.payload = (t.recordAt? j).map Record.payload) (x : Ref) :
    u.slotCount x = t.slotCount x := by
  rw [slotCount_eq_sum (Nat.le_max_left u.cells.size t.cells.size),
    slotCount_eq_sum (Nat.le_max_right u.cells.size t.cells.size)]
  apply Finset.sum_congr rfl
  intro j _
  have hj := h j
  unfold heldAt
  cases hu : u.recordAt? j <;> cases ht : t.recordAt? j <;> simp_all

/-- The effect of changing the content of one cell. -/
theorem slotCount_of_recordAt? {content : Option Record}
    (h : ∀ j, u.recordAt? j = if j = i then content else t.recordAt? j) (x : Ref) :
    u.slotCount x + (t.recordAt? i).elim 0 (·.payload.refs.count x) =
      t.slotCount x + content.elim 0 (·.payload.refs.count x) := by
  have hi : i ∈ range (max u.cells.size t.cells.size + i + 1) := by simp
  have hu := slotCount_eq_sum (t := u) (n := max u.cells.size t.cells.size + i + 1) (by omega) x
  have ht := slotCount_eq_sum (t := t) (n := max u.cells.size t.cells.size + i + 1) (by omega) x
  rw [← Finset.add_sum_erase _ _ hi] at hu ht
  have same : ∑ j ∈ (range (max u.cells.size t.cells.size + i + 1)).erase i, u.heldAt x j =
      ∑ j ∈ (range (max u.cells.size t.cells.size + i + 1)).erase i, t.heldAt x j := by
    apply Finset.sum_congr rfl
    intro j hj
    rw [heldAt, heldAt, h, if_neg (Finset.ne_of_mem_erase hj)]
  have there : u.heldAt x i = content.elim 0 (·.payload.refs.count x) := by
    rw [heldAt, h, if_pos rfl]
  rw [same, there] at hu
  rw [heldAt] at ht
  omega

theorem exists_mem_refs (h : 0 < t.slotCount x) :
    ∃ r record, t.find? r = some record ∧ x ∈ record.payload.refs := by
  rw [slotCount_eq_sum (Nat.le_refl _)] at h
  rcases Finset.exists_ne_zero_of_sum_ne_zero (Nat.ne_of_gt h) with ⟨i, _, hi⟩
  rw [heldAt] at hi
  cases there : t.recordAt? i with
  | none =>
    rw [there] at hi
    exact absurd rfl hi
  | some record =>
    rw [there] at hi
    rcases exists_find? there with ⟨r, _, found⟩
    exact ⟨r, record, found, List.count_pos_iff.mp (Nat.pos_of_ne_zero hi)⟩

/-- Number of slots that refer to `x`, over the records in a set. -/
def slotsIn (t : Table) (s : Finset Ref) (x : Ref) : Nat :=
  ∑ r ∈ s, (t.find? r).elim 0 (·.payload.refs.count x)

theorem slotsIn_mono {s s' : Finset Ref} (h : s ⊆ s') (x : Ref) :
    t.slotsIn s x ≤ t.slotsIn s' x := Finset.sum_le_sum_of_subset h

theorem slotsIn_insert {s : Finset Ref} (found : t.find? r = some record) (new : r ∉ s) (x : Ref) :
    t.slotsIn (Insert.insert r s) x = record.payload.refs.count x + t.slotsIn s x := by
  rw [slotsIn, Finset.sum_insert new, found]
  rfl

theorem exists_mem_refs_of_slotsIn {s : Finset Ref} (h : 0 < t.slotsIn s x) :
    ∃ r ∈ s, ∃ record, t.find? r = some record ∧ x ∈ record.payload.refs := by
  obtain ⟨r, hr, held⟩ := Finset.exists_ne_zero_of_sum_ne_zero (Nat.ne_of_gt h)
  cases found : t.find? r with
  | none =>
    rw [found] at held
    exact absurd rfl held
  | some record =>
    rw [found] at held
    exact ⟨r, hr, record, found, List.count_pos_iff.mp (Nat.pos_of_ne_zero held)⟩

theorem slotsIn_le_slotCount (t : Table) (s : Finset Ref) (x : Ref) :
    t.slotsIn s x ≤ t.slotCount x := by
  have there : t.slotsIn s x = ∑ r ∈ s with (t.find? r).isSome, t.heldAt x r.index := by
    rw [slotsIn, Finset.sum_filter]
    apply Finset.sum_congr rfl
    intro r _
    cases found : t.find? r with
    | none => rfl
    | some record =>
      rw [heldAt, (find?_eq_some.mp found).2]
      rfl
  -- records that are there are told apart by their cells
  have apart : Set.InjOn Ref.index (s.filter fun r => (t.find? r).isSome) := by
    intro r hr y hy same
    obtain ⟨_, found⟩ := Option.isSome_iff_exists.mp (Finset.mem_filter.mp hr).2
    obtain ⟨_, found'⟩ := Option.isSome_iff_exists.mp (Finset.mem_filter.mp hy).2
    exact eq_of_index_eq found' found same
  have inside : (s.filter fun r => (t.find? r).isSome).image Ref.index ⊆ range t.cells.size := by
    intro i hi
    obtain ⟨r, hr, rfl⟩ := Finset.mem_image.mp hi
    obtain ⟨_, found⟩ := Option.isSome_iff_exists.mp (Finset.mem_filter.mp hr).2
    exact Finset.mem_range.mpr (lt_size_of_recordAt? (find?_eq_some.mp found).2)
  rw [there, slotCount_eq_sum (Nat.le_refl _), ← Finset.sum_image (f := t.heldAt x) apart]
  exact Finset.sum_le_sum_of_subset inside

theorem slotCount_modifyAt (t : Table) (hf : ∀ record, (f record).payload = record.payload)
    (i : Nat) (x : Ref) : (t.modifyAt i f).slotCount x = t.slotCount x := by
  apply slotCount_congr
  intro j
  rw [recordAt?_modifyAt]
  split
  · cases t.recordAt? j with
    | none => rfl
    | some record => exact congrArg some (hf record)
  · rfl

@[simp] theorem slotCount_setRefcount (t : Table) (i n : Nat) (x : Ref) :
    (t.modifyAt i (Record.setRefcount n)).slotCount x = t.slotCount x :=
  t.slotCount_modifyAt (f := Record.setRefcount n) (fun _ => rfl) i x

@[simp] theorem slotCount_setState (t : Table) (i : Nat) (state : State) (x : Ref) :
    (t.modifyAt i (Record.setState state)).slotCount x = t.slotCount x :=
  t.slotCount_modifyAt (f := Record.setState state) (fun _ => rfl) i x

@[simp] theorem slotCount_setHook (t : Table) (i : Nat) (hook : Hook) (x : Ref) :
    (t.modifyAt i (Record.setHook hook)).slotCount x = t.slotCount x :=
  t.slotCount_modifyAt (f := Record.setHook hook) (fun _ => rfl) i x

theorem Relinks.slotCount_eq (h : Relinks t u) (x : Ref) : u.slotCount x = t.slotCount x := by
  apply slotCount_congr
  intro j
  have hj := congrArg (Option.map Record.payload) (h.records j)
  simpa only [Option.map_map, Function.comp_def, Record.payload_core] using hj

@[simp] theorem slotCount_attach (t : Table) (i : Nat) (x : Ref) :
    (t.attach i).slotCount x = t.slotCount x :=
  (t.relinks_attach i).slotCount_eq x

@[simp] theorem slotCount_detach (t : Table) (i : Nat) (x : Ref) :
    (t.detach i).slotCount x = t.slotCount x :=
  (t.relinks_detach i).slotCount_eq x

theorem slotCount_setPayload (h : t.find? r = some record) (payload : Payload) (x : Ref) :
    (t.modifyAt r.index (Record.setPayload payload)).slotCount x + record.payload.refs.count x =
      t.slotCount x + payload.refs.count x := by
  have hr := (find?_eq_some.mp h).2
  have cells : ∀ j, (t.modifyAt r.index (Record.setPayload payload)).recordAt? j =
      if j = r.index then some (record.setPayload payload) else t.recordAt? j := by
    intro j
    rw [recordAt?_modifyAt]
    by_cases e : j = r.index
    · rw [if_pos e, if_pos e.symm, e, hr]
      rfl
    · rw [if_neg e, if_neg (Ne.symm e)]
  have cell := slotCount_of_recordAt? cells x
  rw [hr] at cell
  exact cell

theorem Inserted.slotCount_eq (h : Inserted t record r u) (x : Ref) :
    u.slotCount x = t.slotCount x + record.payload.refs.count x := by
  have cell := slotCount_of_recordAt? h.recordAt? x
  rw [h.vacant] at cell
  exact cell

theorem Removed.slotCount_eq (h : Removed t record r u) (x : Ref) :
    u.slotCount x + record.payload.refs.count x = t.slotCount x := by
  have cell := slotCount_of_recordAt? h.recordAt? x
  rw [(find?_eq_some.mp h.found).2] at cell
  exact cell

def count (t : Table) (x : Ref) : Nat := (t.find? x).elim 0 (·.header.refcount)

def isStatic (t : Table) (x : Ref) : Bool := (t.find? x).any (·.header.isStatic)

theorem count_eq_bare (t : Table) (x : Ref) :
    t.count x = (t.bare x).elim 0 (·.header.refcount) := by
  rw [count, bare]
  cases t.find? x <;> rfl

theorem isStatic_eq_bare (t : Table) (x : Ref) :
    t.isStatic x = (t.bare x).any (·.header.isStatic) := by
  rw [isStatic, bare]
  cases t.find? x <;> rfl

theorem count_of_find? (h : t.find? r = some record) : t.count r = record.header.refcount := by
  rw [count, h]
  rfl

theorem isStatic_of_find? (h : t.find? r = some record) :
    t.isStatic r = true ↔ record.header.creationScope = staticScope := by
  simp [isStatic, h, Header.isStatic]

theorem isStatic_eq_false (h : t.find? r = some record) :
    t.isStatic r = false ↔ record.header.creationScope ≠ staticScope := by
  rw [Bool.eq_false_iff, ne_eq, isStatic_of_find? h]

theorem count_setRefcount (h : t.find? r = some record) (n : Nat) (x : Ref) :
    (t.modifyAt r.index (Record.setRefcount n)).count x = if x = r then n else t.count x := by
  rw [count, find?_modifyAt_of_find? h, count]
  split <;> rfl

theorem count_modifyAt (t : Table)
    (hf : ∀ record, (f record).header.refcount = record.header.refcount) (i : Nat) (x : Ref) :
    (t.modifyAt i f).count x = t.count x := by
  rw [count, find?_modifyAt, count]
  split
  · cases t.find? x with
    | none => rfl
    | some record => exact hf record
  · rfl

@[simp] theorem count_setState (t : Table) (i : Nat) (state : State) (x : Ref) :
    (t.modifyAt i (Record.setState state)).count x = t.count x :=
  t.count_modifyAt (f := Record.setState state) (fun _ => rfl) i x

@[simp] theorem count_setHook (t : Table) (i : Nat) (hook : Hook) (x : Ref) :
    (t.modifyAt i (Record.setHook hook)).count x = t.count x :=
  t.count_modifyAt (f := Record.setHook hook) (fun _ => rfl) i x

@[simp] theorem count_setPayload (t : Table) (i : Nat) (payload : Payload) (x : Ref) :
    (t.modifyAt i (Record.setPayload payload)).count x = t.count x :=
  t.count_modifyAt (f := Record.setPayload payload) (fun _ => rfl) i x

@[simp] theorem count_attach (t : Table) (i : Nat) (x : Ref) :
    (t.attach i).count x = t.count x := by
  rw [count_eq_bare, bare_attach, ← count_eq_bare]

@[simp] theorem count_detach (t : Table) (i : Nat) (x : Ref) :
    (t.detach i).count x = t.count x := by
  rw [count_eq_bare, bare_detach, ← count_eq_bare]

theorem Inserted.count_eq (h : Inserted t record r u) (x : Ref) :
    u.count x = if x = r then record.header.refcount else t.count x := by
  rw [count, h.find?, count]
  split <;> rfl

theorem Removed.count_eq (h : Removed t record r u) (x : Ref) :
    u.count x = if x = r then 0 else t.count x := by
  rw [count, h.find?, count]
  split <;> rfl

theorem Inserted.count_eq_zero (h : Inserted t record r u) : t.count r = 0 := by
  rw [count, find?_eq_none_of_vacant h.vacant]
  rfl

end Table

namespace Deed

/-- References that are counted, or that leave their slots. -/
def gains : Deed → List Ref
  | raise r => [r]
  | destroy d | drain d | sweep d => d.record.payload.refs
  | allocate r _ => [r]
  | store _ old _ => old.refs
  | lower _ | keep _ | defer _ | allocateStatic _ _ | hook _ _ | enter | leave | bury => []

/-- References that are given up, or that go into slots. -/
def losses : Deed → List Ref
  | lower r | keep r | defer r => [r]
  | destroy d => [d.ref]
  | allocate _ payload | allocateStatic _ payload => payload.refs
  | store _ _ new => new.refs
  | sweep d => List.replicate d.record.header.refcount d.ref
  | raise _ | drain _ | hook _ _ | enter | leave | bury => []

end Deed

namespace Context

variable {cx cx' : Context} {d : Deed} {ds : List Deed}

theorem balance_setRefcount {t : Table} {r : Ref} {record : Record} {n : Nat}
    (found : t.find? r = some record) {gains losses : List Ref}
    (change : n + losses.count r = record.header.refcount + gains.count r)
    (others : ∀ x, x ≠ r → losses.count x = gains.count x) (x : Ref) :
    (t.modifyAt r.index (Record.setRefcount n)).count x + t.slotCount x + losses.count x =
      t.count x + (t.modifyAt r.index (Record.setRefcount n)).slotCount x + gains.count x := by
  have hcount := Table.count_setRefcount found n x
  rw [hcount, Table.slotCount_setRefcount]
  by_cases e : x = r
  · rw [if_pos e, e, Table.count_of_find? found]
    omega
  · rw [if_neg e, others x e]

theorem balance_allocate {grant : Grant} {payload : Payload} {r : Ref} {table : Table}
    (h : cx.Sound)
    (inserted : cx.table.insert grant ⟨.fresh cx.current cx.scopes.activeHome, payload⟩ =
      .ok (r, table)) (x : Ref) :
    (table.attach r.index).count x + cx.table.slotCount x + payload.refs.count x =
      cx.table.count x + (table.attach r.index).slotCount x + [r].count x := by
  have spec := (Table.insert_spec h.vacant inserted).1
  have hcount := spec.count_eq x
  have hslots := spec.slotCount_eq x
  have vacant := spec.count_eq_zero
  rw [Table.count_attach, Table.slotCount_attach]
  by_cases e : x = r
  · rw [if_pos e] at hcount
    rw [← e] at vacant ⊢
    rw [List.count_singleton_self]
    simp only [Header.fresh] at hcount hslots
    omega
  · rw [if_neg e] at hcount
    rw [List.count_singleton, if_neg (by simpa using Ne.symm e)]
    simp only at hslots
    omega

/-- The count of a record that is not static, and the slots that refer to it, change by what is
gained and lost. -/
theorem Move.balance (move : Move cx d cx') (h : cx.Sound) (x : Ref)
    (counted : cx'.table.isStatic x = false) :
    cx'.table.count x + cx.table.slotCount x + d.losses.count x =
      cx.table.count x + cx'.table.slotCount x + d.gains.count x := by
  cases move with
  | @raise r record found tracked awake =>
    refine balance_setRefcount found ?_ ?_ x
    · simp [Deed.gains, Deed.losses]
    · intro x hx
      simp [Deed.gains, Deed.losses, Ne.symm hx]
  | @raiseStatic r record found static =>
    have hx : x ≠ r := by
      rintro rfl
      rw [(Table.isStatic_of_find? found).mpr static] at counted
      cases counted
    simp [Deed.gains, Deed.losses, Ne.symm hx]
  | @lower r record n found tracked count =>
    refine balance_setRefcount found ?_ ?_ x
    · simp [Deed.gains, Deed.losses, count]
    · intro x hx
      simp [Deed.gains, Deed.losses, Ne.symm hx]
  | @lowerStatic r record found static =>
    have hx : x ≠ r := by
      rintro rfl
      rw [(Table.isStatic_of_find? found).mpr static] at counted
      cases counted
    simp [Deed.gains, Deed.losses, Ne.symm hx]
  | @keep r record n found tracked count =>
    refine balance_setRefcount found ?_ ?_ x
    · simp [Deed.gains, Deed.losses, count]
    · intro x hx
      simp [Deed.gains, Deed.losses, Ne.symm hx]
  | @defer r record found tracked last outer =>
    simp only [Table.count_setState, Table.count_detach, Table.slotCount_setState,
      Table.slotCount_detach]
    refine balance_setRefcount found ?_ ?_ x
    · simp [Deed.gains, Deed.losses, last]
    · intro x hx
      simp [Deed.gains, Deed.losses, Ne.symm hx]
  | @destroy r record gone table found tracked last inner removed =>
    have spec := (h.removed_of_last found removed).1
    have hcount := spec.count_eq x
    have hslots := spec.slotCount_eq x
    rw [Table.count_detach, Table.count_setRefcount found] at hcount
    rw [Table.slotCount_detach, Table.slotCount_setRefcount] at hslots
    simp only [Deed.gains, Deed.losses]
    by_cases e : x = r
    · rw [if_pos e] at hcount
      rw [e, Table.count_of_find? found, last, List.count_singleton_self, ← e]
      omega
    · rw [if_neg e, if_neg e] at hcount
      rw [List.count_singleton, if_neg (by simpa using Ne.symm e)]
      omega
  | @drain r rest gone table queue removed =>
    have spec := (Table.remove_spec h.vacant removed).1
    have hcount := spec.count_eq x
    have hslots := spec.slotCount_eq x
    rcases h.filed _ List.mem_cons_self r (by rw [queue]; simp) with ⟨shown, hshown, _, _, zero⟩
    have hr : cx.table.count r = 0 := by
      rw [Table.count_eq_bare, hshown]
      exact zero
    simp only [Deed.gains, Deed.losses, List.count_nil]
    by_cases e : x = r
    · rw [if_pos e] at hcount
      rw [← e] at hr
      omega
    · rw [if_neg e] at hcount
      omega
  | allocate inserted plain => exact balance_allocate h inserted x
  | allocateContainer inserted paired =>
    simp only [Table.count_setHook, Table.slotCount_setHook]
    exact balance_allocate h inserted x
  | @allocateStatic grant payload r table inserted paired =>
    have spec := (Table.insert_spec h.vacant inserted).1
    have hx : x ≠ r := by
      rintro rfl
      have found : table.find? x = some ⟨.forever, payload⟩ := by rw [spec.find?, if_pos rfl]
      rw [(Table.isStatic_of_find? found).mpr rfl] at counted
      cases counted
    have hcount := spec.count_eq x
    have hslots := spec.slotCount_eq x
    rw [if_neg hx] at hcount
    simp only [Deed.gains, Deed.losses, List.count_nil] at hslots ⊢
    omega
  | hook found free => simp [Deed.gains, Deed.losses]
  | @store r record payload found paired =>
    have hslots := Table.slotCount_setPayload found payload x
    simp only [Table.count_setPayload, Deed.gains, Deed.losses]
    omega
  | enter => rfl
  | leave empty popped => rfl
  | bury => rfl
  | @sweep r rest gone table first removed =>
    have vacant := h.vacant.relink (cx.table.relinks_detach r.index)
    have spec := (Table.remove_spec vacant removed).1
    have hcount := spec.count_eq x
    have hslots := spec.slotCount_eq x
    have hgone := Table.count_of_find? spec.found
    rw [Table.count_detach] at hcount hgone
    rw [Table.slotCount_detach] at hslots
    simp only [Deed.gains, Deed.losses]
    by_cases e : x = r
    · rw [if_pos e] at hcount
      rw [← e] at hgone ⊢
      rw [List.count_replicate_self]
      omega
    · rw [if_neg e] at hcount
      rw [List.count_replicate, if_neg (by simpa using Ne.symm e)]
      omega

theorem Move.isStatic (move : Move cx d cx') (h : cx.Sound) {x : Ref}
    (static : cx.table.isStatic x = true) : cx'.table.isStatic x = true := by
  have fate := move.fate h x
  have proper := h.proper x
  rw [Table.isStatic_eq_bare] at static ⊢
  generalize cx.table.bare x = before at fate static proper
  generalize cx'.table.bare x = after at fate
  cases fate with
  | same | raised | lowered | kept | deferred | hooked | stored => exact static
  | destroyed tracked => exact absurd (by simpa [Header.isStatic] using static) tracked
  | @drained old gone zero pending =>
    have scope : old.header.creationScope = staticScope := by simpa [Header.isStatic] using static
    cases pending.symm.trans ((proper old rfl).static.mpr scope)
  | @swept old gone live =>
    have scope : old.header.creationScope = staticScope := by simpa [Header.isStatic] using static
    cases live.symm.trans ((proper old rfl).static.mpr scope)
  | allocated | furnished | settled => cases static

theorem Path.isStatic (path : Path cx ds cx') (h : cx.Sound) {x : Ref}
    (static : cx.table.isStatic x = true) : cx'.table.isStatic x = true := by
  induction path with
  | refl => exact static
  | move first _ ih => exact ih (first.sound h) (first.isStatic h static)

theorem Path.isStatic_eq_false (path : Path cx ds cx') (h : cx.Sound) {x : Ref}
    (counted : cx'.table.isStatic x = false) : cx.table.isStatic x = false := by
  cases static : cx.table.isStatic x with
  | false => rfl
  | true => exact (path.isStatic h static).symm.trans counted

theorem Path.balance (path : Path cx ds cx') (h : cx.Sound) (x : Ref)
    (counted : cx'.table.isStatic x = false) :
    cx'.table.count x + cx.table.slotCount x + (ds.flatMap Deed.losses).count x =
      cx.table.count x + cx'.table.slotCount x + (ds.flatMap Deed.gains).count x := by
  induction path with
  | refl => rfl
  | @move a b c d ds first rest ih =>
    have hfirst := first.balance h x (rest.isStatic_eq_false (first.sound h) counted)
    have hrest := ih (first.sound h) counted
    simp only [List.flatMap_cons, List.count_append]
    omega

end Context

end ScopedHeap
