import ScopedHeap.Proofs.Reachable

/-!
# The counters add up

Every record that has been allocated is live, waits in a queue, has been destroyed, has been given
up by a sweep, or is about to be buried: the counters of a context tell the same as its table and
the agenda, in every state of every run (`Machine.Reachable.tally`).
-/
namespace ScopedHeap

theorem Table.Listed.liveCount_detach {t : Table} {l : List Nat} {i : Nat} (h : t.Listed l)
    (hi : i ∈ l) : (t.detach i).liveCount + 1 = t.liveCount := by
  rw [(h.detach hi).count, h.count, List.length_erase_of_mem hi]
  exact Nat.sub_add_cancel (List.length_pos_of_mem hi)

theorem Table.liveCount_attach {t : Table} {i : Nat} {record : Record}
    (h : t.recordAt? i = some record) : (t.attach i).liveCount = t.liveCount + 1 := by
  rw [attach, h]

def Deed.removals : Deed → Nat
  | destroy _ | drain _ => 1
  | _ => 0

def Deed.burials : Deed → Nat
  | bury => 1
  | _ => 0

def Task.burials : Task → Nat
  | .bury _ _ _ => 1
  | _ => 0

namespace Context

variable {cx cx' : Context} {d : Deed} {ds : List Deed}

def stored (cx : Context) : Nat := cx.table.liveCount + cx.scopes.pending

/-- Number of records that are accounted for. -/
def accounted (cx : Context) : Nat :=
  cx.stored + cx.counters.destroyed + cx.counters.leaked

theorem Sound.liveCount_detach {r : Ref} {record : Record} (h : cx.Sound)
    (found : cx.table.find? r = some record) (live : record.header.state = .live) :
    (cx.table.detach r.index).liveCount + 1 = cx.table.liveCount := by
  obtain ⟨l, listed, mem⟩ := h.listed
  exact listed.liveCount_detach ((mem r _ (Table.bare_of_find? found)).mp live)

/-- When the last count of a record is given up, it leaves the live list. -/
theorem Sound.liveCount_last {r : Ref} {record : Record} (h : cx.Sound)
    (found : cx.table.find? r = some record) (tracked : record.header.creationScope ≠ staticScope)
    (last : record.header.refcount = 1) :
    ((cx.table.modifyAt r.index (Record.setRefcount 0)).detach r.index).liveCount + 1 =
      cx.table.liveCount := by
  obtain ⟨l, listed, mem⟩ := h.listed
  have bare := Table.bare_of_find? found
  have count : record.core.header.refcount ≠ 0 := by
    show record.header.refcount ≠ 0
    rw [last]
    exact Nat.one_ne_zero
  have live := h.live_of_counted bare tracked count
  exact (listed.modifyAt (f := Record.setRefcount 0) (fun _ => ⟨rfl, rfl⟩) r.index).liveCount_detach
    ((mem r _ bare).mp live)

theorem Sound.liveCount_allocate {grant : Grant} {payload : Payload} {r : Ref} {table : Table}
    (h : cx.Sound)
    (inserted : cx.table.insert grant ⟨.fresh cx.current cx.scopes.activeHome, payload⟩ =
      .ok (r, table)) : (table.attach r.index).liveCount = cx.table.liveCount + 1 := by
  have spec := (Table.insert_spec h.vacant inserted).1
  rw [Table.liveCount_attach ((spec.recordAt? _).trans (if_pos rfl)), spec.liveCount]

theorem Sound.perm_waiting_defer {r : Ref} {record : Record} (h : cx.Sound)
    (found : cx.table.find? r = some record) (tracked : record.header.creationScope ≠ staticScope)
    (outer : record.header.creationScope < cx.current) :
    (cx.scopes.defer record.header.home r).2.waiting.Perm (r :: cx.scopes.waiting) := by
  have home : record.header.home.scope = record.header.creationScope :=
    (h.proper r _ (Table.bare_of_find? found)).home
  have pos : 0 < record.header.home.scope := by
    rw [home]
    exact Nat.pos_of_ne_zero tracked
  have lt : record.header.home.scope < cx.scopes.current := by
    rw [home]
    exact outer
  exact ScopeStack.perm_waiting_defer h.numbered pos lt

theorem pending_defer {r : Ref} {record : Record} (h : cx.Sound)
    (found : cx.table.find? r = some record) (tracked : record.header.creationScope ≠ staticScope)
    (outer : record.header.creationScope < cx.current) :
    (cx.scopes.defer record.header.home r).2.pending = cx.scopes.pending + 1 := by
  have perm := h.perm_waiting_defer found tracked outer
  rw [← ScopeStack.length_waiting, perm.length_eq, List.length_cons, ScopeStack.length_waiting]

/-- A move changes the number of records allocated by what it changes elsewhere. -/
theorem Move.tally (move : Move cx d cx') (h : cx.Sound) :
    cx'.counters.allocated + cx.accounted + d.burials =
      cx.counters.allocated + cx'.accounted + d.removals := by
  unfold accounted stored
  cases move with
  | raise | raiseStatic | lower | lowerStatic | keep | hook | store => rfl
  | defer found tracked last outer =>
    have live := h.liveCount_last found tracked last
    have pending := pending_defer h found tracked outer
    rw [Table.liveCount_modifyAt]
    simp only [Deed.burials, Deed.removals]
    omega
  | destroy found tracked last inner removed =>
    have live := h.liveCount_last found tracked last
    rw [← (h.removed_of_last found removed).1.liveCount] at live
    simp only [Deed.burials, Deed.removals]
    omega
  | drain queue removed =>
    have live := (Table.remove_spec h.vacant removed).1.liveCount
    have pending := congrArg List.length (ScopeStack.waiting_cons queue)
    rw [List.length_cons, ScopeStack.length_waiting, ScopeStack.length_waiting] at pending
    dsimp only [Deed.burials, Deed.removals] at pending ⊢
    omega
  | allocate inserted =>
    have live := h.liveCount_allocate inserted
    simp only [Deed.burials, Deed.removals]
    omega
  | allocateContainer inserted =>
    have live := h.liveCount_allocate inserted
    rw [Table.liveCount_modifyAt]
    simp only [Deed.burials, Deed.removals]
    omega
  | allocateStatic inserted =>
    have live := (Table.insert_spec h.vacant inserted).1.liveCount
    simp only [Deed.burials, Deed.removals]
    omega
  | enter =>
    have pending := congrArg List.length (ScopeStack.waiting_push cx.scopes)
    rw [ScopeStack.length_waiting, ScopeStack.length_waiting] at pending
    simp only [Deed.burials, Deed.removals]
    omega
  | leave empty popped =>
    have pending := congrArg List.length (ScopeStack.waiting_of_pop popped empty)
    rw [ScopeStack.length_waiting, ScopeStack.length_waiting] at pending
    simp only [Deed.burials, Deed.removals]
    omega
  | bury =>
    simp only [Deed.burials, Deed.removals]
    omega
  | @sweep r rest gone table first removed =>
    obtain ⟨record, found, state⟩ := h.find?_of_live (r := r) (by rw [first]; simp)
    have live := h.liveCount_detach found state
    have vacant := h.vacant.relink (cx.table.relinks_detach r.index)
    rw [← (Table.remove_spec vacant removed).1.liveCount] at live
    simp only [Deed.burials, Deed.removals]
    omega

theorem Path.tally (path : Path cx ds cx') (h : cx.Sound) :
    cx'.counters.allocated + cx.accounted + total Deed.burials ds =
      cx.counters.allocated + cx'.accounted + total Deed.removals ds := by
  induction path with
  | refl => rfl
  | move first _ ih =>
    have hfirst := first.tally h
    have hrest := ih (first.sound h)
    rw [total_cons, total_cons]
    omega

end Context

theorem total_eq_zero {α : Type} {f : α → Nat} {l : List α} (h : ∀ a ∈ l, f a = 0) :
    total f l = 0 := by
  induction l with
  | nil => rfl
  | cons a l ih =>
    rw [total_cons, h a List.mem_cons_self, ih fun b hb => h b (List.mem_cons_of_mem a hb)]

theorem burials_map_perform (site : Site) (cs : List Command) :
    total Task.burials (cs.map (.perform site)) = 0 := by
  apply total_eq_zero
  intro t ht
  obtain ⟨c, _, rfl⟩ := List.mem_map.mp ht
  rfl

theorem Doomed.burials_tasks (d : Doomed) : total Task.burials d.tasks = 1 := by
  unfold Doomed.tasks
  dsimp only
  split
  · rfl
  · split <;> rfl
  · rfl

theorem Deed.Permitted.burials_eq {c : Change} {d : Deed} (h : d.Permitted c) : d.burials = 0 := by
  cases d with
  | raise | lower | keep | defer | destroy | drain | allocate | allocateStatic | hook | store
  | enter | leave | sweep => rfl
  | bury => exact h.elim

theorem Dooms.removals_eq {ds : List Deed} {doomed : Option Doomed} {c : Change}
    (h : Dooms ds doomed) (permitted : ∀ d ∈ ds, d.Permitted c) :
    total Deed.removals ds = total Task.burials (doomed.elim [] Doomed.tasks) := by
  obtain ⟨es, rfl, intact⟩ := h
  have stay : total Deed.removals es = 0 := by
    apply total_eq_zero
    intro e he
    have allowed := permitted e (List.mem_append_left _ he)
    cases e with
    | raise | lower | keep | defer | allocate | allocateStatic | store | enter => rfl
    | destroy d => exact absurd he (intact d)
    | drain | hook | leave | bury | sweep => exact allowed.elim
  rw [total_append, stay, Nat.zero_add]
  cases doomed with
  | none => rfl
  | some d => exact d.burials_tasks.symm

/-- Whatever a step takes out is going to be buried. -/
theorem Turn.burials {cx cx' : Context} {grants : Grants} {b : Bindings} {t : Task}
    {ds : List Deed} {new : List Task} {fault : Option Fault}
    (turn : Turn cx grants b t ds cx' new fault) :
    total Deed.removals ds + t.burials = total Deed.burials ds + total Task.burials new := by
  cases turn with
  | asked | unbound | outermost | popping | unhooked | released | stuck | finished
  | bottom | closing | mismatched | unwound | unwinding | drained | hooked | buried => rfl
  | opened =>
    rw [total_append, burials_map_perform]
    rfl
  | scripted =>
    rw [burials_map_perform]
    rfl
  | changed _ _ _ completed =>
    rw [completed.dooms.removals_eq completed.permitted, total_append,
      total_eq_zero fun d hd => (completed.permitted d hd).burials_eq]
    exact (Nat.zero_add _).symm
  | refused _ _ _ failed =>
    rw [failed.dooms.removals_eq failed.permitted,
      total_eq_zero fun d hd => (failed.permitted d hd).burials_eq]
    rfl
  | releasing _ _ lowers conduct =>
    have permitted := conduct.permitted (.increment .heap none)
    rw [conduct.dooms.removals_eq permitted, total_append,
      total_eq_zero fun d hd => (permitted d hd).burials_eq]
    exact (Nat.zero_add _).symm
  | @left _ _ after => cases after <;> rfl
  | @exiting _ _ _ d | @draining d =>
    rw [total_append, d.burials_tasks]
    rfl
  | swept _ sweeps =>
    have none_removed : total Deed.removals ds = 0 := by
      apply total_eq_zero
      intro d hd
      obtain ⟨x, rfl⟩ := sweeps d hd
      rfl
    have none_buried : total Deed.burials ds = 0 := by
      apply total_eq_zero
      intro d hd
      obtain ⟨x, rfl⟩ := sweeps d hd
      rfl
    rw [none_removed, none_buried]
    rfl

namespace Machine

/-- Every record that has been allocated is accounted for. -/
theorem Reachable.tally {m : Machine} (h : m.Reachable) :
    m.context.counters.allocated = m.context.accounted + total Task.burials m.agenda := by
  induction h with
  | start settings memory program =>
    show 0 = 0 + total Task.burials (program.map (.perform .program))
    rw [burials_map_perform]
  | @step m h ih =>
    rcases m.step_cases with same | ⟨running, t, rest, next⟩
    · rw [same]
      exact ih
    · obtain ⟨ds, new, turn, agenda⟩ := turn_step h.sound running next
      have tally := turn.path.tally h.sound
      have burials := turn.burials
      rw [next, total_cons] at ih
      rw [agenda, total_append]
      omega
  | @closing m h idle ih =>
    have quiet : total Task.burials m.agenda = 0 := by
      apply total_eq_zero
      intro t ht
      rcases idle.agenda t ht with ⟨c, rfl⟩ | ⟨id, rfl⟩ <;> rfl
    have still : total Task.burials m.closing.agenda = 0 := by
      unfold Machine.closing
      dsimp only
      split <;> rfl
    rw [quiet] at ih
    rw [still]
    exact ih

end Machine

end ScopedHeap
