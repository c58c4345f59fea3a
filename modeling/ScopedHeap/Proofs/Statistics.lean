import ScopedHeap.Proofs.Agenda
import ScopedHeap.Proofs.Allotment
import ScopedHeap.Proofs.Ledger
import ScopedHeap.Proofs.Table.Links
import ScopedHeap.Proofs.Tally

/-!
# What the statistics tell

The live list has the live records, the latest first, with links both ways, and the counters tell
what is in the table, in the queues and on the agenda. All of this holds at every moment of every
history, in the middle of operations and while hooks run (`History.statistics`).
-/
namespace ScopedHeap

open Context

def Deed.relist (l : List Nat) : Deed → List Nat
  | allocate r _ => r.index :: l
  | defer r => l.erase r.index
  | destroy d | sweep d => l.erase d.ref.index
  | _ => l

def Deed.born : Deed → List Ref
  | allocate r _ => [r]
  | _ => []

namespace Table

variable {t : Table} {l k : List Nat}

/-- The live list runs through the cells `l`, and nothing else has links. -/
def Threaded (t : Table) (l : List Nat) : Prop := t.Listed l ∧ t.Loose l

theorem Listed.map_index (h : t.Listed l) : t.live.map Ref.index = l := by
  rw [h.live_eq, List.map_map]
  exact List.map_id l

theorem Listed.unique (h : t.Listed l) (h' : t.Listed k) : l = k :=
  h.map_index.symm.trans h'.map_index

theorem Threaded.modifyAt {f : Record → Record} (h : t.Threaded l) (hf : Record.KeepsLinks f)
    (i : Nat) : (t.modifyAt i f).Threaded l := ⟨h.1.modifyAt hf i, h.2.modifyAt hf i⟩

theorem Threaded.detach {i : Nat} (h : t.Threaded l) (hi : i ∈ l) :
    (t.detach i).Threaded (l.erase i) := ⟨h.1.detach hi, h.2.detach h.1 hi⟩

theorem Threaded.remove {u : Table} {record : Record} {r : Ref} (h : t.Threaded l)
    (spec : Removed t record r u) (hr : r.index ∉ l) : u.Threaded l :=
  ⟨h.1.remove spec hr, h.2.remove spec⟩

theorem Threaded.allocate {u : Table} {record : Record} {r : Ref} (h : t.Threaded l)
    (spec : Inserted t record r u)
    (unlinked : record.header.prev = none ∧ record.header.next = none) :
    (u.attach r.index).Threaded (r.index :: l) := by
  have listed := h.1.insert spec
  exact ⟨listed.attach (h.1.not_mem_insert spec) ((spec.recordAt? _).trans (if_pos rfl)),
    (h.2.insert spec unlinked).attach listed _⟩

end Table

namespace Context

variable {cx cx' : Context} {d : Deed} {ds : List Deed} {l : List Nat} {x : Ref}

theorem Sound.index_mem {record : Record} (h : cx.Sound) (listed : cx.table.Listed l)
    (shown : cx.table.bare x = some record) : record.header.state = .live ↔ x.index ∈ l := by
  obtain ⟨k, listed', mem⟩ := h.listed
  rw [listed.unique listed']
  exact mem x record shown

theorem Sound.threaded_last {record : Record} (h : cx.Sound) (threaded : cx.table.Threaded l)
    (found : cx.table.find? x = some record) (tracked : record.header.creationScope ≠ staticScope)
    (last : record.header.refcount = 1) :
    ((cx.table.modifyAt x.index (Record.setRefcount 0)).detach x.index).Threaded
      (l.erase x.index) := by
  have shown := Table.bare_of_find? found
  have counted : record.core.header.refcount ≠ 0 := by
    rw [Record.refcount_core, last]
    exact Nat.one_ne_zero
  have live := h.live_of_counted shown tracked counted
  exact (threaded.modifyAt (f := Record.setRefcount 0) (fun _ => ⟨rfl, rfl⟩) x.index).detach
    ((h.index_mem threaded.1 shown).mp live)

theorem Move.threaded (move : Move cx d cx') (h : cx.Sound) (threaded : cx.table.Threaded l) :
    cx'.table.Threaded (d.relist l) := by
  have gone : ∀ i, i ∉ l.erase i := by
    intro i mem
    rw [threaded.1.nodup.mem_erase_iff] at mem
    exact mem.1 rfl
  cases move with
  | raise | lower | keep | hook | store =>
    apply threaded.modifyAt
    exact fun _ => ⟨rfl, rfl⟩
  | raiseStatic | lowerStatic | enter | leave | bury => exact threaded
  | defer found tracked last outer =>
    apply (h.threaded_last threaded found tracked last).modifyAt
    exact fun _ => ⟨rfl, rfl⟩
  | destroy found tracked last inner removed =>
    exact (h.threaded_last threaded found tracked last).remove
      (h.removed_of_last found removed).1 (gone _)
  | @drain r rest record table queue removed =>
    refine threaded.remove (Table.remove_spec h.vacant removed).1 ?_
    obtain ⟨shown, hshown, pending, _⟩ := h.filed _ List.mem_cons_self r (by rw [queue]; simp)
    rw [← h.index_mem threaded.1 hshown, pending]
    simp
  | allocate inserted =>
    exact threaded.allocate (Table.insert_spec h.vacant inserted).1 ⟨rfl, rfl⟩
  | allocateContainer inserted =>
    apply (threaded.allocate (Table.insert_spec h.vacant inserted).1 ⟨rfl, rfl⟩).modifyAt
    exact fun _ => ⟨rfl, rfl⟩
  | allocateStatic inserted =>
    have spec := (Table.insert_spec h.vacant inserted).1
    exact ⟨threaded.1.insert spec, threaded.2.insert spec ⟨rfl, rfl⟩⟩
  | @sweep r rest record table first removed =>
    obtain ⟨record, found, live⟩ := h.find?_of_live (r := r) (by rw [first]; simp)
    have vacant := h.vacant.relink (cx.table.relinks_detach r.index)
    exact (threaded.detach ((h.index_mem threaded.1 (Table.bare_of_find? found)).mp live)).remove
      (Table.remove_spec vacant removed).1 (gone _)

theorem Move.bare_of_allocate {r : Ref} {p : Payload} (move : Move cx (.allocate r p) cx')
    (h : cx.Sound) : ∃ record, cx'.table.bare r = some record := by
  cases move with
  | allocate inserted => exact ⟨_, h.bare_of_allocate inserted⟩
  | allocateContainer inserted =>
    obtain ⟨attached, found, _⟩ := Table.bare_eq_some_iff.mp (h.bare_of_allocate inserted)
    exact ⟨_, (Table.bare_modifyAt_of_find? found _ r).trans (if_pos rfl)⟩

/-- After a deed the live list is a part of what it was, behind the record that is new. -/
theorem Move.live_sublist (move : Move cx d cx') (h : cx.Sound) (threaded : cx.table.Threaded l) :
    cx'.table.live.Sublist (d.born ++ cx.table.live) := by
  have after := (move.threaded h threaded).1
  rw [after.live_eq, threaded.1.live_eq]
  -- a cell that is not vacated keeps its generation
  have keeps : ∀ i, d.vacates i = false → cx'.table.refAt i = cx.table.refAt i := by
    intro i stays
    have same := move.generationAt_eq i
    rw [stays] at same
    exact congrArg (Ref.mk i) same
  have erased : ∀ r : Ref, (∀ i, i ≠ r.index → d.vacates i = false) →
      ((l.erase r.index).map cx'.table.refAt).Sublist (l.map cx.table.refAt) := by
    intro r stays
    have same : (l.erase r.index).map cx'.table.refAt = (l.erase r.index).map cx.table.refAt := by
      apply List.map_congr_left
      intro i hi
      exact keeps i (stays i (threaded.1.nodup.mem_erase_iff.mp hi).1)
    rw [same]
    exact List.erase_sublist.map _
  have unvacated : (∀ i, d.vacates i = false) →
      (l.map cx'.table.refAt).Sublist (l.map cx.table.refAt) := by
    intro stays
    rw [List.map_congr_left fun i _ => keeps i (stays i)]
  cases d with
  | allocate r p =>
    obtain ⟨record, hrecord⟩ := move.bare_of_allocate h
    obtain ⟨new, found, _⟩ := Table.bare_eq_some_iff.mp hrecord
    have here : cx'.table.refAt r.index = r :=
      congrArg (Ref.mk r.index) (Table.generationAt_of_find? found)
    rw [Deed.relist, List.map_cons, here]
    exact (unvacated fun _ => rfl).cons_cons r
  | defer r => exact erased r fun _ _ => rfl
  | destroy e | sweep e =>
    refine erased e.ref ?_
    intro i hi
    simpa [Deed.vacates, Deed.removed?] using Ne.symm hi
  | drain e =>
    -- what is drained has not been on the list
    have same : l.map cx'.table.refAt = l.map cx.table.refAt := by
      apply List.map_congr_left
      intro i hi
      apply keeps
      obtain ⟨record, hrecord⟩ := after.linked.recordAt? hi
      simp only [Deed.vacates, Deed.removed?, Option.any_some, decide_eq_false_iff_not]
      rintro rfl
      cases move with
      | drain queue removed =>
        rw [(Table.remove_spec h.vacant removed).1.recordAt?, if_pos rfl] at hrecord
        cases hrecord
    show (l.map cx'.table.refAt).Sublist (l.map cx.table.refAt)
    rw [same]
  | raise | lower | keep | allocateStatic | hook | store | enter | leave | bury =>
    exact unvacated fun _ => rfl

theorem Path.threaded (path : Path cx ds cx') (h : cx.Sound)
    (threaded : ∃ l, cx.table.Threaded l) : ∃ l, cx'.table.Threaded l := by
  induction path with
  | refl => exact threaded
  | move first _ ih =>
    obtain ⟨l, threaded⟩ := threaded
    exact ih (first.sound h) ⟨_, first.threaded h threaded⟩

theorem Path.live_sublist (path : Path cx ds cx') (h : cx.Sound)
    (threaded : ∃ l, cx.table.Threaded l) :
    cx'.table.live.Sublist ((ds.reverse.flatMap Deed.born) ++ cx.table.live) := by
  induction path with
  | refl => exact List.Sublist.refl _
  | @move a b c d ds first _ ih =>
    obtain ⟨l, threaded⟩ := threaded
    have later := ih (first.sound h) ⟨_, first.threaded h threaded⟩
    have now := first.live_sublist h threaded
    rw [List.reverse_cons, List.flatMap_append, List.flatMap_singleton, List.append_assoc]
    exact later.trans (now.append_left _)

/-- A record that is allocated was not there before, if nothing has been taken out until then. -/
theorem Path.absent_of_allocate {before after : List Deed} {r : Ref} {p : Payload}
    (path : Path cx (before ++ .allocate r p :: after) cx') (h : cx.Sound)
    (stays : ∀ d ∈ before, d.removed? = none) : cx.table.bare r = none := by
  obtain ⟨mid, first, rest⟩ := path.split
  cases rest with
  | move move _ =>
    have absent := move.absent_of_allocate (first.sound h) (Or.inl rfl)
    cases present : cx.table.bare r with
    | none => rfl
    | some record =>
      obtain ⟨d, hd, _, removed⟩ := first.removed h (by rw [present]; rfl) absent
      rw [stays d hd] at removed
      cases removed

theorem Move.filled (move : Move cx d cx') (h : cx.Sound) (filled : cx.table.Filled) :
    cx'.table.Filled := by
  cases move with
  | raise | lower | keep | hook | store => exact filled.modifyAt _ _
  | raiseStatic | lowerStatic | enter | leave | bury => exact filled
  | defer => exact ((filled.modifyAt _ _).detach _).modifyAt _ _
  | @destroy r _ _ _ _ _ _ _ removed =>
    exact ((filled.modifyAt _ _).detach _).remove ((h.vacant.modifyAt _ _).relink
      (Table.relinks_detach _ _)) removed
  | drain _ removed => exact filled.remove h.vacant removed
  | allocate inserted => exact (filled.insert inserted).attach _
  | allocateContainer inserted => exact ((filled.insert inserted).attach _).modifyAt _ _
  | allocateStatic inserted => exact filled.insert inserted
  | @sweep r _ _ _ _ removed =>
    exact (filled.detach _).remove (h.vacant.relink (cx.table.relinks_detach r.index)) removed

theorem Path.filled (path : Path cx ds cx') (h : cx.Sound) (filled : cx.table.Filled) :
    cx'.table.Filled := by
  induction path with
  | refl => exact filled
  | move first _ ih => exact ih (first.sound h) (first.filled h filled)

theorem Sound.liveCount_eq (h : cx.Sound) : cx.table.liveCount = cx.table.stateCount .live := by
  obtain ⟨l, listed, mem⟩ := h.listed
  have perm : l.Perm ((List.range cx.table.cells.size).filter
      fun i => (cx.table.recordAt? i).any (·.header.state = .live)) := by
    rw [List.perm_ext_iff_of_nodup listed.nodup (List.nodup_range.filter _)]
    intro i
    rw [List.mem_filter, List.mem_range]
    constructor
    · intro hi
      obtain ⟨record, there⟩ := listed.linked.recordAt? hi
      obtain ⟨r, rfl, found⟩ := Table.exists_find? there
      refine ⟨Table.lt_size_of_recordAt? there, ?_⟩
      rw [there]
      simpa using (mem r _ (Table.bare_of_find? found)).mpr hi
    · rintro ⟨_, live⟩
      cases there : cx.table.recordAt? i with
      | none =>
        rw [there] at live
        cases live
      | some record =>
        obtain ⟨r, rfl, found⟩ := Table.exists_find? there
        rw [there] at live
        exact (mem r _ (Table.bare_of_find? found)).mp (by simpa using live)
  rw [listed.count, Table.stateCount, List.countP_eq_length_filter, perm.length_eq]

theorem Sound.occupied_eq (h : cx.Sound) (filled : cx.table.Filled) :
    cx.table.occupied =
      cx.table.liveCount + cx.scopes.pending + cx.table.stateCount .static := by
  rw [filled.occupied_eq h.vacant, Table.storedCount_eq, h.liveCount_eq, h.pending_eq]
  rfl

theorem Sound.mem_live (h : cx.Sound) {r : Ref} :
    r ∈ cx.table.live ↔
      ∃ record, cx.table.find? r = some record ∧ record.header.state = .live := by
  refine ⟨h.find?_of_live, ?_⟩
  rintro ⟨record, found, live⟩
  obtain ⟨l, listed, mem⟩ := h.listed
  have on := (mem r _ (Table.bare_of_find? found)).mp live
  have there : cx.table.find? (cx.table.refAt r.index) = some record := by
    rw [Table.find?_refAt]
    exact (Table.find?_eq_some.mp found).2
  have same : cx.table.refAt r.index = r := Table.eq_of_index_eq found there rfl
  rw [listed.live_eq, ← same]
  exact List.mem_map_of_mem on

theorem Sound.map_ref_liveEntries (h : cx.Sound) :
    cx.liveEntries.map LiveEntry.ref = cx.table.live := by
  unfold liveEntries
  rw [List.map_filterMap]
  refine (List.filterMap_congr ?_).trans List.filterMap_some
  intro r hr
  obtain ⟨record, found, _⟩ := h.find?_of_live hr
  rw [found]
  rfl

theorem Move.waiting_subset (move : Move cx d cx') (h : cx.Sound) (stays : ∀ e, d ≠ .drain e) :
    cx.scopes.waiting ⊆ cx'.scopes.waiting := by
  cases move with
  | raise | raiseStatic | lower | lowerStatic | keep | destroy | allocate | allocateContainer
  | allocateStatic | hook | store | bury | sweep => exact List.Subset.refl _
  | defer found tracked last outer =>
    intro x hx
    exact (h.perm_waiting_defer found tracked outer).mem_iff.mpr (List.mem_cons_of_mem _ hx)
  | drain => exact absurd rfl (stays _)
  | enter =>
    dsimp only
    rw [ScopeStack.waiting_push]
    exact List.Subset.refl _
  | leave empty popped =>
    dsimp only
    rw [ScopeStack.waiting_of_pop popped empty]
    exact List.Subset.refl _

theorem Path.waiting_subset (path : Path cx ds cx') (h : cx.Sound) (stays : ∀ e, .drain e ∉ ds) :
    cx.scopes.waiting ⊆ cx'.scopes.waiting := by
  induction path with
  | refl => exact List.Subset.refl _
  | @move a b c d ds first _ ih =>
    have now : ∀ e, d ≠ .drain e := by
      rintro e rfl
      exact stays e List.mem_cons_self
    exact List.Subset.trans (first.waiting_subset h now)
      (ih (first.sound h) fun e he => stays e (List.mem_cons_of_mem _ he))

end Context

def Deed.drains : Deed → Nat
  | drain _ => 1
  | _ => 0

theorem Deed.length_born (ds : List Deed) :
    (ds.flatMap Deed.born).length = ds.countP Deed.allocates := by
  induction ds with
  | nil => rfl
  | cons d ds ih =>
    rw [List.flatMap_cons, List.length_append, List.countP_cons, ih, Nat.add_comm]
    cases d <;> rfl

namespace Context

variable {cx cx' : Context} {d : Deed} {ds : List Deed}

theorem Move.deferred (move : Move cx d cx') (h : cx.Sound) :
    cx'.counters.deferred + cx.scopes.pending =
      cx.counters.deferred + cx'.scopes.pending + d.drains := by
  cases move with
  | raise | raiseStatic | lower | lowerStatic | keep | destroy | allocate | allocateContainer
  | allocateStatic | hook | store | bury | sweep => rfl
  | defer found tracked last outer =>
    have pending := pending_defer h found tracked outer
    simp only [Deed.drains]
    omega
  | drain queue removed =>
    have pending := congrArg List.length (ScopeStack.waiting_cons queue)
    rw [List.length_cons, ScopeStack.length_waiting, ScopeStack.length_waiting] at pending
    dsimp only [Deed.drains] at pending ⊢
    omega
  | enter =>
    have pending := congrArg List.length (ScopeStack.waiting_push cx.scopes)
    rw [ScopeStack.length_waiting, ScopeStack.length_waiting] at pending
    simp only [Deed.drains]
    omega
  | leave empty popped =>
    have pending := congrArg List.length (ScopeStack.waiting_of_pop popped empty)
    rw [ScopeStack.length_waiting, ScopeStack.length_waiting] at pending
    simp only [Deed.drains]
    omega

theorem Path.deferred (path : Path cx ds cx') (h : cx.Sound) :
    cx'.counters.deferred + cx.scopes.pending =
      cx.counters.deferred + cx'.scopes.pending + total Deed.drains ds := by
  induction path with
  | refl => rfl
  | move first _ ih =>
    have now := first.deferred h
    have later := ih (first.sound h)
    rw [total_cons]
    omega

end Context

section Turns

variable {cx cx' : Context} {grants : Grants} {b : Bindings} {t : Task} {ds : List Deed}
  {new : List Task} {fault : Option Fault}

/-- A turn takes one record off a queue and does nothing else, or it takes off none. -/
theorem Turn.drains (turn : Turn cx grants b t ds cx' new fault) :
    (∀ e, .drain e ∉ ds) ∨ ∃ e, ds = [.drain e] := by
  cases turn with
  | asked | unbound | outermost | popping | unhooked | scripted | released | stuck | finished
  | bottom | closing | mismatched | unwound | unwinding | drained => exact Or.inl (by simp)
  | hooked | opened | buried | left => exact Or.inl (by simp)
  | changed _ _ _ completed => exact Or.inl fun e he => completed.permitted _ he
  | refused _ _ _ failed => exact Or.inl fun e he => failed.permitted _ he
  | releasing _ _ _ conduct => exact Or.inl fun e he => conduct.ordinary _ he
  | exiting | draining => exact Or.inr ⟨_, rfl⟩
  | swept _ sweeps =>
    refine Or.inl ?_
    intro e he
    obtain ⟨x, hx⟩ := sweeps _ he
    cases hx

/-- The records that wait no more after a turn are those it has taken off their queue. -/
theorem Turn.length_dequeued (turn : Turn cx grants b t ds cx' new fault) (h : cx.Sound) :
    (cx.scopes.waiting.filter (· ∉ cx'.scopes.waiting)).length = total Deed.drains ds := by
  rcases turn.drains with none | ⟨e, rfl⟩
  · have nothing : cx.scopes.waiting.filter (· ∉ cx'.scopes.waiting) = [] := by
      rw [List.filter_eq_nil_iff]
      intro x hx
      simpa using turn.path.waiting_subset h none hx
    have quiet : total Deed.drains ds = 0 := by
      apply total_eq_zero
      intro d hd
      cases d with
      | drain e => exact absurd hd (none e)
      | raise | lower | keep | defer | destroy | allocate | allocateStatic | hook | store | enter
      | leave | bury | sweep => rfl
    rw [nothing, quiet]
    rfl
  · have path := turn.path
    cases path with
    | move move rest =>
      cases rest
      cases move with
      | @drain r rest record table queue removed =>
        have once := h.once
        rw [ScopeStack.waiting_cons queue] at once ⊢
        obtain ⟨absent, _⟩ := List.nodup_cons.mp once
        rw [List.filter_cons_of_pos (by simpa using absent)]
        have others : ∀ x ∈ (ScopeStack.waiting { cx.scopes with
            active := { cx.scopes.active with queue := rest } }),
            ¬ (decide (x ∉ ScopeStack.waiting { cx.scopes with
              active := { cx.scopes.active with queue := rest } })) = true := by
          intro x hx
          simpa using hx
        rw [List.filter_eq_nil_iff.mpr others]
        rfl

theorem Turn.absent_of_born (turn : Turn cx grants b t ds cx' new fault) (h : cx.Sound) {r : Ref}
    (born : r ∈ ds.flatMap Deed.born) : cx.table.bare r = none := by
  obtain ⟨d, hd, hr⟩ := List.mem_flatMap.mp born
  cases d with
  | allocate x p =>
    obtain rfl := List.mem_singleton.mp hr
    obtain ⟨before, after, rfl⟩ := List.append_of_mem hd
    apply turn.path.absent_of_allocate h
    by_cases sweeps : t = .sweep
    · subst sweeps
      cases turn with
      | swept _ sweeps _ =>
        obtain ⟨x, hx⟩ := sweeps _ hd
        cases hx
    · -- what a turn takes out it takes out last
      have takes := turn.takes sweeps
      cases doomed : t.doomed? cx grants b with
      | none =>
        rw [doomed] at takes
        exact fun d hd => takes d (List.mem_append_left _ hd)
      | some e =>
        rw [doomed] at takes
        obtain ⟨es, hds, steady⟩ := takes
        have removes : ∃ last : Deed, before ++ .allocate r p :: after = es ++ [last] ∧
            last ≠ .allocate r p := by
          rcases hds with hds | hds
          · exact ⟨_, hds, by simp⟩
          · exact ⟨_, hds, by simp⟩
        obtain ⟨last, split, other⟩ := removes
        rcases List.eq_nil_or_concat' after with rfl | ⟨rest, final, rfl⟩
        · exact absurd (List.append_inj' split rfl).2 (by simpa using Ne.symm other)
        · have front : before ++ .allocate r p :: rest = es := by
            rw [← List.cons_append, ← List.append_assoc] at split
            exact (List.append_inj' split rfl).1
          intro d hd
          exact (steady d (front ▸ List.mem_append_left _ hd)).1
  | raise | lower | keep | defer | destroy | drain | allocateStatic | hook | store | enter | leave
  | bury | sweep => cases hr

end Turns

/-- The burial of a record whose hook runs. -/
def Task.awaitsHook : Task → Bool
  | .bury _ _ hooked => hooked
  | _ => false

/-- The burial of a record without a hook. -/
def Task.buriesUnhooked : Task → Bool
  | .bury _ _ hooked => !hooked
  | _ => false

theorem Orderly.burials {Owned : Ref → List Ref → Prop} {agenda : List Task}
    (ordered : Orderly Owned agenda) :
    total Task.burials agenda = agenda.countP Task.awaitsHook := by
  induction ordered with
  | nil => rfl
  | @plain t rest plain _ ih =>
    rw [total_cons, List.countP_cons, ih]
    cases t with
    | bury => exact plain.elim
    | perform | runScript | releaseRefs | finish | exitScope | leaveBlock | unwind | drain
    | sweep =>
      exact Nat.zero_add _
  | bury _ ih =>
    rw [total_cons, List.countP_cons, ih]
    exact Nat.add_comm _ _
  | release _ _ ih =>
    rw [total_cons, total_cons, List.countP_cons, List.countP_cons, ih]
    simp only [Task.burials, Task.awaitsHook, Bool.false_eq_true, ↓reduceIte]
    omega

namespace History

variable (h : History)

/-- The burials that are due are those of the records whose hooks run, and perhaps that of a record
without a hook that the last step has taken out. -/
theorem burials (n : Nat) :
    total Task.burials (h.state n).agenda = (h.state n).agenda.countP Task.awaitsHook +
      if (h.state n).agenda.head?.any Task.buriesUnhooked then 1 else 0 := by
  cases agenda : (h.state n).agenda with
  | nil => rfl
  | cons t rest =>
    have later := ((h.composed n).rest agenda).burials
    rw [total_cons, List.countP_cons, later, List.head?_cons, Option.any_some]
    cases t with
    | bury r scope hooked =>
      cases hooked with
      | true => simp [Task.burials, Task.awaitsHook, Task.buriesUnhooked, Nat.add_comm]
      | false => simp [Task.burials, Task.awaitsHook, Task.buriesUnhooked, Nat.add_comm]
    | perform | runScript | releaseRefs | finish | exitScope | leaveBlock | unwind | drain
    | sweep =>
      simp [Task.burials, Task.awaitsHook, Task.buriesUnhooked]

/-- At moment `n`, `y` has been in the table since a time when `x` was not. -/
def Precedes (n : Nat) (y x : Ref) : Prop :=
  ∃ k ≤ n, h.record? k x = none ∧ ∀ j, k ≤ j → j ≤ n → (h.record? j y).isSome

theorem isSome_of_live {n : Nat} {x : Ref} (live : x ∈ (h.state n).context.table.live) :
    (h.record? n x).isSome := by
  obtain ⟨record, found, _⟩ := (h.sound n).find?_of_live live
  exact Option.isSome_of_mem found

theorem start_path : Path { Context.new h.settings with table := .empty }
    [.allocateStatic ⟨0, 0⟩ (.text "false"), .allocateStatic ⟨1, 0⟩ (.text "true")]
    (h.state 0).context := path_new h.settings

theorem threaded (n : Nat) : ∃ l, (h.state n).context.table.Threaded l := by
  induction n with
  | zero =>
    refine h.start_path.threaded (sound_of_empty rfl rfl) ⟨[], ?_, ?_⟩
    · exact ⟨List.nodup_nil, rfl, trivial, rfl⟩
    · intro i _ p hp
      cases hp
  | succ n ih =>
    obtain ⟨ds, path, _⟩ := h.path n
    exact path.threaded (h.sound n) ih

theorem filled (n : Nat) : (h.state n).context.table.Filled := by
  induction n with
  | zero => exact h.start_path.filled (sound_of_empty rfl rfl) rfl
  | succ n ih =>
    obtain ⟨ds, path, _⟩ := h.path n
    exact path.filled (h.sound n) ih

/-- The next live list has perhaps a record that was not there, and then what is left of the live
list of now. -/
theorem live_succ (n : Nat) : ∃ born : List Ref, born.length ≤ 1 ∧
    (∀ x ∈ born, h.record? n x = none) ∧
    (h.state (n + 1)).context.table.live.Sublist (born ++ (h.state n).context.table.live) := by
  cases h.moment n with
  | closing _ next | still _ next =>
    rw [next]
    exact ⟨[], Nat.zero_le 1, by simp, List.Sublist.refl _⟩
  | @turn t rest new ds _ _ _ turn =>
    refine ⟨ds.reverse.flatMap Deed.born, ?_, ?_, turn.path.live_sublist (h.sound n) (h.threaded n)⟩
    · have once := turn.countP_allocates_le
      rw [← List.countP_reverse] at once
      rw [Deed.length_born]
      exact once
    · intro x hx
      have born : x ∈ ds.flatMap Deed.born := by
        obtain ⟨d, hd, here⟩ := List.mem_flatMap.mp hx
        exact List.mem_flatMap.mpr ⟨d, List.mem_reverse.mp hd, here⟩
      exact Option.map_eq_none_iff.mp (turn.absent_of_born (h.sound n) born)

/-- The live list has the latest record first. -/
theorem latest_first (n : Nat) :
    (h.state n).context.table.live.Pairwise fun x y => h.Precedes n y x := by
  induction n with
  | zero =>
    have empty : (h.state 0).context.table.live = [] := rfl
    rw [empty]
    exact .nil
  | succ n ih =>
    obtain ⟨born, once, absent, sublist⟩ := h.live_succ n
    have ordered : (born ++ (h.state n).context.table.live).Pairwise
        fun x y => h.Precedes n y x := by
      rw [List.pairwise_append]
      refine ⟨?_, ih, ?_⟩
      · match born, once with
        | [], _ => exact .nil
        | [x], _ => exact List.pairwise_singleton _ x
      · intro x hx y hy
        refine ⟨n, Nat.le_refl n, absent x hx, ?_⟩
        intro j after before
        rw [Nat.le_antisymm before after]
        exact h.isSome_of_live hy
    refine (ordered.sublist sublist).imp_of_mem ?_
    rintro x y _ hy ⟨k, le, was, stays⟩
    refine ⟨k, Nat.le_succ_of_le le, was, ?_⟩
    intro j after before
    rcases Nat.lt_or_eq_of_le before with lt | rfl
    · exact stays j after (Nat.lt_succ_iff.mp lt)
    · exact h.isSome_of_live hy

def dequeued : Nat → Nat
  | 0 => 0
  | n + 1 => dequeued n + ((h.state n).context.scopes.waiting.filter
      (· ∉ (h.state (n + 1)).context.scopes.waiting)).length

theorem deferred_eq (n : Nat) :
    (h.state n).context.counters.deferred =
      (h.state n).context.scopes.pending + h.dequeued n := by
  induction n with
  | zero => rfl
  | succ n ih =>
    rw [dequeued]
    cases h.moment n with
    | closing _ next | still _ next =>
      have nothing : (h.state n).context.scopes.waiting.filter
          (· ∉ (h.state (n + 1)).context.scopes.waiting) = [] := by
        rw [next, List.filter_eq_nil_iff]
        intro x hx
        exact fun gone => of_decide_eq_true gone hx
      rw [nothing, next]
      exact ih
    | turn _ _ _ turn =>
      have now := turn.path.deferred (h.sound n)
      rw [turn.length_dequeued (h.sound n)]
      omega

/-- The live list and the statistics tell the truth at a moment. -/
structure Truthful (n : Nat) : Prop where
  mem_live : ∀ x, x ∈ (h.state n).context.table.live ↔
    ∃ record, h.record? n x = some record ∧ record.header.state = .live
  nodup : (h.state n).context.table.live.Nodup
  latest : (h.state n).context.table.live.Pairwise fun x y => h.Precedes n y x
  entries : (h.state n).context.liveEntries.map LiveEntry.ref = (h.state n).context.table.live
  live : (h.state n).context.stats.live = (h.state n).context.table.live.length
  mirrored : ∀ i j, (h.state n).context.table.next? i = some j ↔
    (h.state n).context.table.prev? j = some i
  /-- Every record that has been allocated is in one place. A record without a hook is counted as
  destroyed by the step after the one that takes it out, with nothing between the two. -/
  allocated : (h.state n).context.stats.allocated = (h.state n).context.stats.destroyed +
    (h.state n).context.stats.leaked + (h.state n).context.stats.live +
    (h.state n).context.stats.pending + (h.state n).agenda.countP Task.awaitsHook +
    if (h.state n).agenda.head?.any Task.buriesUnhooked then 1 else 0
  occupied : (h.state n).context.table.occupied = (h.state n).context.stats.live +
    (h.state n).context.stats.pending + (h.state n).context.table.stateCount .static
  deferred : (h.state n).context.stats.deferred =
    (h.state n).context.stats.pending + h.dequeued n

/-- At every moment of a history, also while hooks run, the live list has exactly the live records,
each once and the latest first, and the counters agree with what is in the table, in the queues and
under destruction. -/
theorem statistics (n : Nat) : h.Truthful n := by
  have sound := h.sound n
  obtain ⟨l, listed, loose⟩ := h.threaded n
  have length : (h.state n).context.table.live.length = l.length := by
    rw [listed.live_eq, List.length_map]
  have tally := (h.reachable n).tally
  rw [h.burials n] at tally
  refine ⟨fun x => sound.mem_live, ?_, h.latest_first n, sound.map_ref_liveEntries,
    listed.count.trans length.symm, listed.next?_eq_some_iff loose, ?_,
    sound.occupied_eq (h.filled n), h.deferred_eq n⟩
  · apply List.Nodup.of_map Ref.index
    rw [listed.map_index]
    exact listed.nodup
  · simp only [Context.accounted, Context.stored] at tally
    simp only [Context.stats]
    omega

end History

end ScopedHeap
