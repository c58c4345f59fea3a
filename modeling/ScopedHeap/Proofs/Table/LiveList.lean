import Mathlib.Data.List.Nodup
import Mathlib.Data.List.Perm.Subperm
import ScopedHeap.Proofs.Table.Records

/-!
# The live list

`Table.Listed t l` says that the live list of `t` runs through the cells `l` in this order: the
links lead from each cell to its neighbours in `l`, both ways, no cell comes twice, and the count is
right. Attaching puts a cell in front, detaching takes one out, and `Table.live` reads `l` off.
-/
namespace ScopedHeap.Table

variable {t u : Table} {i j : Nat} {l k : List Nat} {p n : Option Nat} {f : Record → Record}

def links? (t : Table) (i : Nat) : Option (Option Nat × Option Nat) :=
  (t.recordAt? i).map fun record => (record.header.prev, record.header.next)

theorem links?_modifyAt_of_ne (h : i ≠ j) (f : Record → Record) :
    (t.modifyAt i f).links? j = t.links? j := by
  rw [links?, recordAt?_modifyAt, if_neg h, links?]

theorem links?_modifyAt_of_keepsLinks (h : Record.KeepsLinks f) (i j : Nat) :
    (t.modifyAt i f).links? j = t.links? j := by
  rw [links?, recordAt?_modifyAt, links?]
  split
  · cases t.recordAt? j with
    | none => rfl
    | some record => simp [h record]
  · rfl

theorem links?_setPrev (t : Table) (i : Nat) (link : Option Nat) :
    (t.modifyAt i (Record.setPrev link)).links? i = (t.links? i).map fun x => (link, x.2) := by
  rw [links?, recordAt?_modifyAt, if_pos rfl, links?]
  cases t.recordAt? i <;> rfl

theorem links?_setNext (t : Table) (i : Nat) (link : Option Nat) :
    (t.modifyAt i (Record.setNext link)).links? i = (t.links? i).map fun x => (x.1, link) := by
  rw [links?, recordAt?_modifyAt, if_pos rfl, links?]
  cases t.recordAt? i <;> rfl

/-- The links lead along `l`, from the cell `p` before it to the cell `n` behind it. -/
def Segment (t : Table) (p : Option Nat) : List Nat → Option Nat → Prop
  | [], _ => True
  | i :: rest, n => t.links? i = some (p, rest.head?.or n) ∧ t.Segment (some i) rest n

theorem Segment.congr (h : t.Segment p l n) (same : ∀ i ∈ l, u.links? i = t.links? i) :
    u.Segment p l n := by
  induction l generalizing p with
  | nil => trivial
  | cons i rest ih =>
    refine ⟨?_, ih h.2 fun j hj => same j (List.mem_cons_of_mem _ hj)⟩
    rw [same i List.mem_cons_self]
    exact h.1

theorem Segment.modifyAt (h : t.Segment p l n) (hi : i ∉ l) (f : Record → Record) :
    (t.modifyAt i f).Segment p l n := by
  apply h.congr
  intro j hj
  apply links?_modifyAt_of_ne
  rintro rfl
  exact hi hj

theorem segment_append : t.Segment p (l ++ k) n ↔
    t.Segment p l (k.head?.or n) ∧ t.Segment (l.getLast?.or p) k n := by
  induction l generalizing p with
  | nil => simp [Segment]
  | cons i rest ih =>
    have head : (rest ++ k).head?.or n = rest.head?.or (k.head?.or n) := by
      cases rest <;> simp
    have last : (i :: rest).getLast?.or p = rest.getLast?.or (some i) := by
      cases rest <;> simp [List.getLast?_cons]
    simp only [List.cons_append, Segment, ih, head, last, and_assoc]

theorem Segment.setPrev (h : t.Segment p (i :: l) n) (hi : i ∉ l) (q : Option Nat) :
    (t.modifyAt i (Record.setPrev q)).Segment q (i :: l) n := by
  refine ⟨?_, h.2.modifyAt hi _⟩
  rw [links?_setPrev, h.1, Option.map_some]

theorem Segment.setNext (h : t.Segment p (l ++ [i]) n) (hi : i ∉ l) (q : Option Nat) :
    (t.modifyAt i (Record.setNext q)).Segment p (l ++ [i]) q := by
  obtain ⟨front, back⟩ := segment_append.mp h
  refine segment_append.mpr ⟨front.modifyAt hi _, ?_, trivial⟩
  rw [links?_setNext, back.1]
  simp

/-- The live list of `t` runs through the cells `l`. -/
structure Listed (t : Table) (l : List Nat) : Prop where
  nodup : l.Nodup
  head : t.head = l.head?
  linked : t.Segment none l none
  count : t.liveCount = l.length

theorem Segment.recordAt? (h : t.Segment p l n) (hi : i ∈ l) :
    ∃ record, t.recordAt? i = some record := by
  induction l generalizing p with
  | nil => cases hi
  | cons j rest ih =>
    rcases List.mem_cons.mp hi with rfl | hi
    · obtain ⟨record, hrecord, _⟩ := Option.map_eq_some_iff.mp h.1
      exact ⟨record, hrecord⟩
    · exact ih h.2 hi

theorem Listed.congr (h : t.Listed l) (head : u.head = t.head) (count : u.liveCount = t.liveCount)
    (links : ∀ i ∈ l, u.links? i = t.links? i) : u.Listed l where
  nodup := h.nodup
  head := head.trans h.head
  linked := h.linked.congr links
  count := count.trans h.count

theorem Listed.modifyAt (h : t.Listed l) (hf : Record.KeepsLinks f) (i : Nat) :
    (t.modifyAt i f).Listed l :=
  h.congr rfl rfl fun j _ => links?_modifyAt_of_keepsLinks hf i j

theorem Listed.attach (h : t.Listed l) (hi : i ∉ l) {record : Record}
    (hrecord : t.recordAt? i = some record) : (t.attach i).Listed (i :: l) := by
  have links : (t.modifyAt i fun r => (r.setPrev none).setNext t.head).links? i =
      some (none, l.head?) := by
    rw [links?, recordAt?_modifyAt, if_pos rfl, hrecord, ← h.head]
    rfl
  have rest := h.linked.modifyAt hi fun r => (r.setPrev none).setNext t.head
  have hhead := h.head
  unfold Table.attach
  simp only [hrecord]
  cases l with
  | nil =>
    rw [List.head?_nil] at hhead
    simp only [hhead] at links ⊢
    exact ⟨List.nodup_cons.mpr ⟨hi, h.nodup⟩, rfl, ⟨links, trivial⟩, by simp [h.count]⟩
  | cons first l =>
    obtain ⟨hfirst, _⟩ := List.nodup_cons.mp h.nodup
    have hne : first ≠ i := fun e => hi (by simp [e])
    rw [List.head?_cons] at hhead
    simp only [hhead] at links rest ⊢
    have rest := rest.setPrev hfirst (some i)
    refine ⟨List.nodup_cons.mpr ⟨hi, h.nodup⟩, rfl, ⟨?_, rest.congr fun _ _ => rfl⟩,
      by simp [h.count]⟩
    exact (links?_modifyAt_of_ne hne _).trans links

theorem Listed.detach (h : t.Listed l) (hi : i ∈ l) : (t.detach i).Listed (l.erase i) := by
  obtain ⟨a, b, rfl⟩ := List.append_of_mem hi
  obtain ⟨nodupA, nodupB, apart⟩ := List.nodup_append.mp h.nodup
  obtain ⟨hib, nodupB⟩ := List.nodup_cons.mp nodupB
  have hia : i ∉ a := fun hmem => apart i hmem i List.mem_cons_self rfl
  have disjoint : ∀ j ∈ a, j ∉ b := fun j hj hb => apart j hj j (List.mem_cons_of_mem _ hb) rfl
  obtain ⟨front, links, back⟩ := segment_append.mp h.linked
  obtain ⟨record, hrecord, hlinks⟩ := Option.map_eq_some_iff.mp links
  simp only [Option.or_none, Prod.mk.injEq] at hlinks
  obtain ⟨hprev, hnext⟩ := hlinks
  have nodup : (a ++ b).Nodup := by
    refine List.nodup_append.mpr ⟨nodupA, nodupB, ?_⟩
    rintro j hj _ hb rfl
    exact disjoint j hj hb
  have herase : (a ++ i :: b).erase i = a ++ b := by
    rw [List.erase_append_right _ hia, List.erase_cons_head]
  have count : t.liveCount - 1 = (a ++ b).length := by
    rw [h.count]
    simp only [List.length_append, List.length_cons]
    omega
  -- the cell itself keeps no links, and the two sides of the list do not see that
  have front := front.modifyAt hia fun r => (r.setPrev none).setNext none
  have back := back.modifyAt hib fun r => (r.setPrev none).setNext none
  rw [herase]
  unfold Table.detach
  simp only [hrecord]
  rcases List.eq_nil_or_concat' a with rfl | ⟨a, q, rfl⟩
  · have hhead : t.head = some i := h.head
    simp only [hprev, hnext, List.getLast?_nil, hhead, if_true]
    cases b with
    | nil => exact ⟨nodup, rfl, trivial, count⟩
    | cons following b =>
      have back := back.setPrev (List.nodup_cons.mp nodupB).1 none
      exact ⟨nodup, rfl, back.congr fun _ _ => rfl, count⟩
  · have hqa : q ∉ a := fun hmem => by
      obtain ⟨_, _, apart⟩ := List.nodup_append.mp nodupA
      exact apart q hmem q (by simp) rfl
    have hqb : q ∉ b := disjoint q (by simp)
    have hhead : t.head = (a ++ [q] ++ b).head? := by
      rw [h.head]
      cases a <;> simp
    simp only [hprev, hnext, List.getLast?_concat]
    have joined := front.setNext hqa b.head?
    cases b with
    | nil =>
      refine ⟨nodup, hhead, ?_, count⟩
      rw [List.append_nil]
      exact joined.congr fun _ _ => rfl
    | cons following b =>
      have back := (back.modifyAt hqb (Record.setNext (some following))).setPrev
        (List.nodup_cons.mp nodupB).1 (some q)
      have hfa : following ∉ a ++ [q] := fun hmem => disjoint following hmem List.mem_cons_self
      have front := joined.modifyAt hfa (Record.setPrev (some q))
      refine ⟨nodup, hhead, segment_append.mpr ⟨front.congr fun _ _ => rfl, ?_⟩, count⟩
      rw [List.getLast?_concat]
      exact back.congr fun _ _ => rfl

theorem Listed.insert {record : Record} {r : Ref} (h : t.Listed l)
    (k : Inserted t record r u) : u.Listed l := by
  refine h.congr k.head k.liveCount ?_
  intro i hi
  obtain ⟨content, hcontent⟩ := h.linked.recordAt? hi
  have hne : i ≠ r.index := by
    rintro rfl
    rw [k.vacant] at hcontent
    cases hcontent
  rw [links?, k.recordAt?, if_neg hne, links?]

theorem Listed.not_mem_insert {record : Record} {r : Ref} (h : t.Listed l)
    (k : Inserted t record r u) : r.index ∉ l := by
  intro hi
  obtain ⟨content, hcontent⟩ := h.linked.recordAt? hi
  rw [k.vacant] at hcontent
  cases hcontent

theorem Listed.remove {record : Record} {r : Ref} (h : t.Listed l)
    (k : Removed t record r u) (hr : r.index ∉ l) : u.Listed l := by
  refine h.congr k.head k.liveCount ?_
  intro i hi
  have hne : i ≠ r.index := by
    rintro rfl
    exact hr hi
  rw [links?, k.recordAt?, if_neg hne, links?]

def refAt (t : Table) (i : Nat) : Ref := ⟨i, (t.generation? i).getD 0⟩

theorem find?_refAt (t : Table) (i : Nat) : t.find? (t.refAt i) = t.recordAt? i := by
  rw [find?_eq]
  unfold refAt generation? Table.recordAt?
  cases t.cells[i]? <;> simp

theorem walk_of_segment {limit : Nat} (h : t.Segment p l none) (hl : l.length ≤ limit) :
    t.walk limit l.head? = l.map t.refAt := by
  induction l generalizing p limit with
  | nil => cases limit <;> rfl
  | cons i rest ih =>
    cases limit with
    | zero => simp at hl
    | succ limit =>
      obtain ⟨record, hrecord, hlinks⟩ := Option.map_eq_some_iff.mp h.1
      obtain ⟨cell, hcell, hcontent⟩ := Option.bind_eq_some_iff.mp hrecord
      obtain ⟨generation, content⟩ := cell
      have hnext : record.header.next = rest.head? := by
        have := congrArg Prod.snd hlinks
        simpa using this
      simp only at hcontent
      simp only [List.head?_cons, walk, hcell, hcontent, hnext, List.map_cons]
      rw [ih h.2 (by simpa using hl)]
      simp [refAt, generation?, hcell]

theorem Listed.length_le (h : t.Listed l) : l.length ≤ t.cells.size := by
  have inside : l ⊆ List.range t.cells.size := by
    intro i hi
    obtain ⟨record, hrecord⟩ := h.linked.recordAt? hi
    exact List.mem_range.mpr (lt_size_of_recordAt? hrecord)
  simpa using (List.subperm_of_subset h.nodup inside).length_le

theorem Listed.live_eq (h : t.Listed l) : t.live = l.map t.refAt := by
  rw [Table.live, h.head]
  exact walk_of_segment h.linked h.length_le

end ScopedHeap.Table
