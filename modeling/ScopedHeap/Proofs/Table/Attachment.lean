import ScopedHeap.Proofs.Table.Sessions

/-!
# The live list of a careful client

A client that attaches no record twice and removes none that is attached always finds on the live
list just the records that it has attached and not detached since, most recently attached first
(`Session.Threads`). Cells are vacated and taken again meanwhile; that no link is left behind in one
of them is part of the invariant (`Table.Strung`).
-/
namespace ScopedHeap

theorem Record.core_eq_self {record : Record} (prev : record.header.prev = none)
    (next : record.header.next = none) : record.core = record := by
  obtain ⟨header, payload⟩ := record
  obtain ⟨_, _, _, _, _, _, _⟩ := header
  cases prev
  cases next
  rfl

namespace Table

variable {t u : Table} {l : List Ref} {r : Ref} {grant : Grant} {record : Record}
  {f : Record → Record}

/-- The live list runs through the records `l`, and all other records are without links. -/
structure Strung (t : Table) (l : List Ref) : Prop where
  vacant : t.Vacant
  listed : t.Listed (l.map Ref.index)
  loose : t.Loose (l.map Ref.index)
  stored : ∀ r ∈ l, (t.bare r).isSome

theorem strung_empty : empty.Strung [] where
  vacant := ⟨List.nodup_nil, fun i => by simp [empty]⟩
  listed := ⟨List.nodup_nil, rfl, trivial, rfl⟩
  loose := by simp [Loose, links?, recordAt?, empty]
  stored := by simp

theorem exists_find?_of_isSome (h : (t.bare r).isSome) : ∃ record, t.find? r = some record := by
  simpa [bare, Option.isSome_iff_exists] using h

theorem refAt_index (h : (t.bare r).isSome) : t.refAt r.index = r := by
  obtain ⟨record, found⟩ := exists_find?_of_isSome h
  simp [refAt, (find?_eq_some.mp found).1]

theorem Strung.nodup (h : t.Strung l) : l.Nodup := .of_map Ref.index h.listed.nodup

theorem Strung.map_refAt (h : t.Strung l) : (l.map Ref.index).map t.refAt = l := by
  calc (l.map Ref.index).map t.refAt = l.map (t.refAt ∘ Ref.index) := List.map_map
    _ = l.map id := List.map_congr_left fun r hr => refAt_index (h.stored r hr)
    _ = l := List.map_id l

theorem Strung.live_eq (h : t.Strung l) : t.live = l :=
  h.listed.live_eq.trans h.map_refAt

theorem Strung.walk_eq (h : t.Strung l) {limit : Nat} (long : l.length ≤ limit) :
    t.walk limit t.head = l := by
  rw [h.listed.head, walk_of_segment h.listed.linked (by simpa using long), h.map_refAt]

theorem Strung.index_notMem (h : t.Strung l) (there : (t.bare r).isSome) (hr : r ∉ l) :
    r.index ∉ l.map Ref.index := by
  intro mem
  obtain ⟨x, hx, same⟩ := List.mem_map.mp mem
  have eq : x = r := by rw [← refAt_index (h.stored x hx), same, refAt_index there]
  exact hr (eq ▸ hx)

theorem Loose.mem_of_next? {k : List Nat} {i j : Nat} (h : t.Loose k) (next : t.next? i = some j) :
    i ∈ k := by
  rw [next?_eq_links?] at next
  obtain ⟨links, there, second⟩ := Option.bind_eq_some_iff.mp next
  by_contra off
  rw [h i off links there] at second
  cases second

theorem Loose.mem_of_prev? {k : List Nat} {i j : Nat} (h : t.Loose k) (prev : t.prev? i = some j) :
    i ∈ k := by
  rw [prev?_eq_links?] at prev
  obtain ⟨links, there, first⟩ := Option.bind_eq_some_iff.mp prev
  by_contra off
  rw [h i off links there] at first
  cases first

theorem Strung.insert (h : t.Strung l) (inserted : t.insert grant record = .ok (r, u))
    (unlinked : record.header.prev = none ∧ record.header.next = none) : u.Strung l := by
  obtain ⟨spec, vacant⟩ := insert_spec h.vacant inserted
  refine ⟨vacant, h.listed.insert spec, h.loose.insert spec unlinked, fun x hx => ?_⟩
  rw [spec.bare_eq]
  split
  · rfl
  · exact h.stored x hx

theorem Strung.modifyAt (h : t.Strung l) (hf : Record.KeepsLinks f)
    (found : t.find? r = some record) : (t.modifyAt r.index f).Strung l := by
  refine ⟨h.vacant.modifyAt _ f, h.listed.modifyAt hf _, h.loose.modifyAt hf _, fun x hx => ?_⟩
  rw [bare_modifyAt_of_find? found]
  split
  · rfl
  · exact h.stored x hx

theorem Strung.remove (h : t.Strung l) (removed : t.remove r = .ok (record, u)) (hr : r ∉ l) :
    u.Strung l := by
  obtain ⟨spec, vacant⟩ := remove_spec h.vacant removed
  have there : (t.bare r).isSome := by simp [bare_of_find? spec.found]
  refine ⟨vacant, h.listed.remove spec (h.index_notMem there hr), h.loose.remove spec,
    fun x hx => ?_⟩
  have other : x ≠ r := by
    rintro rfl
    exact hr hx
  rw [spec.bare_eq, if_neg other]
  exact h.stored x hx

theorem Strung.attach (h : t.Strung l) (there : (t.bare r).isSome) (hr : r ∉ l) :
    (t.attach r.index).Strung (r :: l) := by
  obtain ⟨record, found⟩ := exists_find?_of_isSome there
  have new := h.index_notMem there hr
  exact {
    vacant := h.vacant.relink (t.relinks_attach r.index)
    listed := h.listed.attach new (find?_eq_some.mp found).2
    loose := h.loose.attach h.listed r.index
    stored := by simpa [there] using h.stored }

theorem map_index_erase (nodup : (l.map Ref.index).Nodup) (hr : r ∈ l) :
    (l.erase r).map Ref.index = (l.map Ref.index).erase r.index := by
  obtain ⟨a, b, rfl⟩ := List.append_of_mem hr
  rw [List.map_append, List.map_cons, List.nodup_middle, List.nodup_cons, List.mem_append,
    not_or] at nodup
  have before : r ∉ a := fun mem => nodup.1.1 (List.mem_map_of_mem mem)
  rw [List.erase_append_right _ before, List.map_append, List.map_append, List.map_cons,
    List.erase_append_right _ nodup.1.1, List.erase_cons_head, List.erase_cons_head]

theorem Strung.detach (h : t.Strung l) (hr : r ∈ l) :
    (t.detach r.index).Strung (l.erase r) := by
  have mem : r.index ∈ l.map Ref.index := List.mem_map_of_mem hr
  have cells := map_index_erase h.listed.nodup hr
  exact {
    vacant := h.vacant.relink (t.relinks_detach r.index)
    listed := cells ▸ h.listed.detach mem
    loose := cells ▸ h.loose.detach h.listed mem
    stored := fun x hx => by simpa using h.stored x (List.mem_of_mem_erase hx) }

theorem Strung.detach_eq_self (h : t.Strung l) (there : (t.bare r).isSome) (hr : r ∉ l) :
    t.detach r.index = t := by
  obtain ⟨record, found⟩ := exists_find?_of_isSome there
  have stored := (find?_eq_some.mp found).2
  have off := h.index_notMem there hr
  have head : t.head ≠ some r.index := by
    rw [h.listed.head]
    exact fun first => off (List.mem_of_mem_head? first)
  have links := h.loose r.index off (record.header.prev, record.header.next)
    (by simp [links?, stored])
  rw [Prod.mk.injEq] at links
  unfold Table.detach
  simp only [stored, links.1, if_neg head]
  apply modifyAt_eq_self
  intro same again
  obtain rfl := Option.some.inj (stored.symm.trans again)
  exact Record.core_eq_self links.1 links.2

/-- What a request does to the list of the records that are attached. -/
def Request.relist : Request → List Ref → List Ref
  | .attach r, l => r :: l
  | .detach r, l => l.erase r
  | _, l => l

namespace Session

/-- The records that have been attached and not been detached since, most recently attached first,
going by the requests alone. -/
def attached (s : Session) : List Ref := s.log.foldr (fun e => e.request.relist) []

/-- New records come without links, and no change in place makes any. A record is attached or
removed only while it is not attached; what is attached or detached is there. -/
def Permits (s : Session) : Request → Prop
  | .insert _ record => record.header.prev = none ∧ record.header.next = none
  | .get _ | .contains _ => True
  | .alter _ f => Record.KeepsLinks f
  | .remove r => r ∉ s.attached
  | .attach r => s.table.contains r = true ∧ r ∉ s.attached
  | .detach r => s.table.contains r = true

/-- Each of the requests is permitted when it is made. -/
def Careful (s : Session) : List Request → Prop
  | [] => True
  | request :: requests => s.Permits request ∧ (s.serve request).Careful requests

variable {s : Session} {request : Request} {requests : List Request}

theorem strung_serve (h : s.table.Strung s.attached) (permitted : s.Permits request) :
    (s.serve request).table.Strung (s.serve request).attached := by
  change (s.table.serve request).2.Strung (request.relist s.attached)
  cases request with
  | insert grant record =>
    cases inserted : s.table.insert grant record with
    | ok stored => simpa [Table.serve, Request.relist, inserted] using h.insert inserted permitted
    | error e => simpa [Table.serve, Request.relist, inserted] using h
  | get | contains => exact h
  | alter r f =>
    cases found : s.table.find r with
    | ok record =>
      have altered := h.modifyAt permitted (find_eq_ok_iff.mp found)
      simpa [Table.serve, Request.relist, found] using altered
    | error e => simpa [Table.serve, Request.relist, found] using h
  | remove r =>
    cases removed : s.table.remove r with
    | ok taken => simpa [Table.serve, Request.relist, removed] using h.remove removed permitted
    | error e => simpa [Table.serve, Request.relist, removed] using h
  | attach r => exact h.attach (by simpa [contains, bare] using permitted.1) permitted.2
  | detach r =>
    have there : (s.table.bare r).isSome := by simpa [Permits, contains, bare] using permitted
    by_cases hr : r ∈ s.attached
    · exact h.detach hr
    · simpa [Table.serve, Request.relist, h.detach_eq_self there hr, List.erase_of_not_mem hr]
        using h

/-- What every permitted request keeps, every careful sequence of requests keeps. -/
theorem Careful.strung (careful : s.Careful requests) (h : s.table.Strung s.attached) :
    (requests.foldl serve s).table.Strung (requests.foldl serve s).attached := by
  induction requests generalizing s with
  | nil => exact h
  | cons request requests ih => exact ih careful.2 (strung_serve h careful.1)

/-- The live list of the table is a doubly linked list of the records that are attached. -/
structure Threads (s : Session) : Prop where
  live : s.table.live = s.attached
  walk : ∀ limit, s.attached.length ≤ limit → s.table.walk limit s.table.head = s.attached
  nodup : s.attached.Nodup
  stored : ∀ r ∈ s.attached, s.table.contains r = true
  count : s.table.liveCount = s.attached.length
  inverse : ∀ i j, s.table.next? i = some j ↔ s.table.prev? j = some i
  /-- No link leads off the list, or onto it from elsewhere. -/
  inside : ∀ i j, s.table.next? i = some j →
    i ∈ s.attached.map Ref.index ∧ j ∈ s.attached.map Ref.index
  idle : ∀ r, s.table.contains r = true → r ∉ s.attached → s.table.detach r.index = s.table
  detached : ∀ before r after, s.attached = before ++ r :: after →
    (s.table.detach r.index).live = before ++ after ∧
    (s.table.detach r.index).liveCount + 1 = s.table.liveCount ∧
    ∀ x, (s.table.detach r.index).bare x = s.table.bare x

theorem threads_of_strung (h : s.table.Strung s.attached) : s.Threads where
  live := h.live_eq
  walk := fun _ => h.walk_eq
  nodup := h.nodup
  stored := fun r hr => by simpa [contains, bare] using h.stored r hr
  count := by simpa using h.listed.count
  inverse := h.listed.next?_eq_some_iff h.loose
  inside := by
    intro i j next
    have prev := (h.listed.next?_eq_some_iff h.loose i j).mp next
    exact ⟨h.loose.mem_of_next? next, h.loose.mem_of_prev? prev⟩
  idle := fun r there => h.detach_eq_self (by simpa [contains, bare] using there)
  detached := by
    intro before r after split
    have nodup := h.nodup
    rw [split, List.nodup_middle, List.nodup_cons, List.mem_append, not_or] at nodup
    have rest : s.attached.erase r = before ++ after := by
      rw [split, List.erase_append_right _ nodup.1.1, List.erase_cons_head]
    have detached := h.detach (r := r) (by simp [split])
    rw [rest] at detached
    refine ⟨detached.live_eq, ?_, fun x => s.table.bare_detach r.index x⟩
    rw [detached.listed.count, h.listed.count, split]
    simp [Nat.add_assoc]

/-- A careful client finds on the live list what it has attached. -/
theorem Careful.live_list (careful : start.Careful requests) : (of requests).Threads :=
  threads_of_strung (careful.strung strung_empty)

/-- Three records are attached and the middle one is detached and removed. Its cell is taken by a
fourth, which is attached as well. -/
def turnover : List Request :=
  let record : Record := ⟨Header.fresh rootScope ⟨rootScope, 0⟩, .str []⟩
  let store : Request := .insert (Grants.ample 0) record
  [store, store, store, .attach ⟨0, 0⟩, .attach ⟨1, 0⟩, .attach ⟨2, 0⟩, .detach ⟨1, 0⟩,
    .remove ⟨1, 0⟩, store, .attach ⟨1, 1⟩, .alter ⟨2, 0⟩ (Record.setPayload (.str [7]))]

theorem live_list_turnover : start.Careful turnover ∧
    (of turnover).table.live = [⟨1, 1⟩, ⟨2, 0⟩, ⟨0, 0⟩] ∧ (of turnover).table.liveCount = 3 := by
  have off : (⟨1, 0⟩ : Ref) ∉ [⟨2, 0⟩, ⟨0, 0⟩] := by decide
  have careful : start.Careful turnover :=
    ⟨⟨rfl, rfl⟩, ⟨rfl, rfl⟩, ⟨rfl, rfl⟩, ⟨rfl, by decide⟩, ⟨rfl, by decide⟩, ⟨rfl, by decide⟩, rfl,
      off, ⟨rfl, rfl⟩, ⟨rfl, by decide⟩, fun _ => ⟨rfl, rfl⟩, trivial⟩
  have threads := careful.live_list
  exact ⟨careful, threads.live, threads.count⟩

end Session

end Table

end ScopedHeap
