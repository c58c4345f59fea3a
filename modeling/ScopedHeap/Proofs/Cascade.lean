import Mathlib.Order.Bounds.Basic
import ScopedHeap.Proofs.Atomicity

/-!
# Release cascades

A container that is destroyed gives up what its slots refer to, and so further records may be
destroyed. What goes in the end does not depend on the order: it is the least set of records that
has the first one and every record all of whose counts come from slots in the set
(`Machine.Reachable.release_cascade`). Records of enclosing scopes are put off in its place.

The proof follows the references in flight, which have left their slots and are still counted. The
counts of a record that is left are short of what they were by the slots of the destroyed records,
less the references in flight (`Context.Cascading`). When none is in flight any more, a record that
lost all its counts is either destroyed or waits.
-/
namespace ScopedHeap

open Context

namespace Record

/-- The record after so many of its counts have been given up. If these were all, it waits. -/
def bereft (n : Nat) (r : Record) : Record :=
  if r.header.creationScope = staticScope then r
  else if 0 < n ∧ r.header.refcount = n then (r.setRefcount 0).setState .pending
  else r.setRefcount (r.header.refcount - n)

variable {n : Nat} {r : Record}

theorem bereft_static (static : r.header.creationScope = staticScope) : r.bereft n = r :=
  if_pos static

theorem bereft_of_lt (tracked : r.header.creationScope ≠ staticScope)
    (lt : n < r.header.refcount) : r.bereft n = r.setRefcount (r.header.refcount - n) := by
  rw [bereft, if_neg tracked, if_neg (fun all => Nat.ne_of_gt lt all.2)]

theorem bereft_all (tracked : r.header.creationScope ≠ staticScope)
    (all : r.header.refcount = n + 1) :
    r.bereft (n + 1) = (r.setRefcount 0).setState .pending := by
  rw [bereft, if_neg tracked, if_pos ⟨n.succ_pos, all⟩]

@[simp] theorem bereft_zero (r : Record) : r.bereft 0 = r := by
  unfold bereft
  split
  · rfl
  · rw [if_neg (fun all => Nat.lt_irrefl 0 all.1)]
    rfl

@[simp] theorem creationScope_bereft (n : Nat) (r : Record) :
    (r.bereft n).header.creationScope = r.header.creationScope := by
  unfold bereft
  split
  · rfl
  · split <;> rfl

theorem state_bereft : (r.bereft n).header.state = .pending ↔
    r.header.state = .pending ∨
      r.header.creationScope ≠ staticScope ∧ 0 < n ∧ r.header.refcount = n := by
  unfold bereft
  by_cases static : r.header.creationScope = staticScope
  · rw [if_pos static]
    simp [static]
  · rw [if_neg static]
    by_cases all : 0 < n ∧ r.header.refcount = n
    · rw [if_pos all]
      simp [static, all, setState]
    · rw [if_neg all]
      simp [all, setRefcount]

/-- All that happens when the record is destroyed is that it gives up what its slots refer to. -/
def releasesSlots (r : Record) : Bool :=
  match r.header.hook with
  | none => !r.payload.isContainer
  | some (.releaseSlots kind) => !r.payload.isContainer || r.payload.kind = kind
  | some (.script _ _) => false

theorem releasesSlots_eq {s : Record} (h : s.core = r.core.setRefcount n) :
    s.payload = r.payload ∧ s.releasesSlots = r.releasesSlots := by
  have payload : s.core.payload = r.payload := by rw [h]; rfl
  have hook : s.core.header.hook = r.header.hook := by rw [h]; rfl
  refine ⟨payload, ?_⟩
  rw [releasesSlots, releasesSlots, ← payload, ← hook]
  rfl

end Record

/-- Tasks of a cascade in which no script is run. -/
def Task.Releases : Task → Prop
  | .releaseRefs _ | .bury _ _ _ => True
  | _ => False

def Task.buries : Task → Bool
  | .bury _ _ _ => true
  | _ => false

theorem Doomed.tasks_of_releasesSlots (d : Doomed) (h : d.record.releasesSlots = true) :
    (∀ t ∈ d.tasks, t.Releases) ∧ inFlight d.tasks = d.record.payload.refs ∧
      d.tasks.countP Task.buries = 1 := by
  unfold Record.releasesSlots at h
  unfold Doomed.tasks
  dsimp only
  cases hook : d.record.header.hook with
  | none =>
    rw [hook] at h
    have plain : d.record.payload.refs = [] := Payload.refs_of_plain (by simpa using h)
    simp [Task.Releases, inFlight, Task.inFlight, Task.buries, plain]
  | some hook' =>
    rw [hook] at h
    cases hook' with
    | script name commands => cases h
    | releaseSlots kind =>
      dsimp only
      by_cases same : d.record.payload.kind = kind
      · rw [if_pos same]
        simp [Task.Releases, inFlight, Task.inFlight, Task.buries]
      · rw [if_neg same]
        have plain : d.record.payload.refs = [] := by
          apply Payload.refs_of_plain
          simpa [same] using h
        simp [Task.Releases, inFlight, Task.inFlight, Task.buries, plain]

namespace Context

variable {cx₀ cx cx' : Context} {x r y : Ref} {dead s : Finset Ref} {flight : List Ref}
  {record : Record} {n : Nat}

/-- The record is counted, and all its counts are for slots of records in the set. -/
structure Orphaned (cx : Context) (s : Finset Ref) (y : Ref) (record : Record) : Prop where
  found : cx.table.find? y = some record
  tracked : record.header.creationScope ≠ staticScope
  held : 0 < cx.table.slotsIn s y
  counts : record.header.refcount = cx.table.slotsIn s y

/-- The set has `x` and every record that it orphans, those of enclosing scopes apart. -/
structure Closed (cx : Context) (x : Ref) (s : Finset Ref) : Prop where
  origin : x ∈ s
  orphans : ∀ y record, cx.Orphaned s y record → cx.current ≤ record.header.creationScope → y ∈ s

/-- No record that can be destroyed runs a script, and all containers among them release their
slots. -/
def Intact (cx : Context) : Prop :=
  ∀ r record, cx.table.find? r = some record → record.header.creationScope ≠ staticScope →
    record.releasesSlots = true

theorem intact_iff : cx.Intact ↔ ∀ i < cx.table.cells.size, ∀ record ∈ cx.table.recordAt? i,
    record.header.creationScope ≠ staticScope → record.releasesSlots = true :=
  Table.forall_find?_iff

instance : Decidable cx.Intact := decidable_of_iff _ intact_iff.symm

theorem Covered.slotCount_le_count (covered : cx.Covered) (counted : cx.table.isStatic y = false) :
    cx.table.slotCount y ≤ cx.table.count y := by
  rcases Nat.eq_zero_or_pos (cx.table.slotCount y) with none | some
  · omega
  · obtain ⟨r, holder, there, mem⟩ := Table.exists_mem_refs some
    obtain ⟨target, hit, _, enough⟩ := covered r holder there y mem
    rw [Table.count_of_find? hit]
    exact enough.resolve_left ((Table.isStatic_eq_false hit).mp counted)

theorem Covered.slotCount_le (covered : cx.Covered) (found : cx.table.find? y = some record)
    (tracked : record.header.creationScope ≠ staticScope) :
    cx.table.slotCount y ≤ record.header.refcount := by
  rw [← Table.count_of_find? found]
  exact covered.slotCount_le_count ((Table.isStatic_eq_false found).mpr tracked)

theorem Covered.slotsIn_le (covered : cx.Covered) (found : cx.table.find? y = some record)
    (tracked : record.header.creationScope ≠ staticScope) (s : Finset Ref) :
    cx.table.slotsIn s y ≤ record.header.refcount :=
  (cx.table.slotsIn_le_slotCount s y).trans (covered.slotCount_le found tracked)

/-- The context `cx` in the middle of a cascade that began in `cx₀` with `x`: the records of `dead`
have been destroyed, and the references of `flight` are still to be given up. -/
structure Cascading (cx₀ : Context) (x : Ref) (dead : Finset Ref) (flight : List Ref)
    (cx : Context) : Prop where
  sound : cx.Sound
  current : cx.current = cx₀.current
  levels : List.Forall₂ Level.Extends cx₀.scopes.levels cx.scopes.levels
  origin : x ∈ dead
  least : ∀ s, cx₀.Closed x s → dead ⊆ s
  gone : ∀ y ∈ dead, cx.table.bare y = none ∧
    ∃ record, cx₀.table.find? y = some record ∧ record.header.refcount ≠ 0
  /-- What refers to a destroyed record has been destroyed. -/
  unheld : ∀ y ∈ dead, cx₀.table.slotCount y ≤ cx₀.table.slotsIn dead y ∧ flight.count y = 0
  /-- What is left is short of the counts for slots in `dead`, but for those in flight. If it has
  lost its last count all the same, it is of an enclosing scope. -/
  left : ∀ y ∉ dead, ∃ n, n + flight.count y = cx₀.table.slotsIn dead y ∧
    cx.table.bare y = (cx₀.table.bare y).map (Record.bereft n) ∧
    ∀ record, cx₀.table.find? y = some record → record.header.creationScope ≠ staticScope →
      0 < n → record.header.refcount = n → record.header.creationScope < cx₀.current

/-- The reference `r`, the first of those in flight, is to the record `now`, which was `record` when
the cascade began and has lost `n` counts since. -/
structure Hit (cx₀ : Context) (dead : Finset Ref) (flight : List Ref) (cx : Context) (r : Ref)
    (record now : Record) (n : Nat) : Prop where
  outside : r ∉ dead
  found : cx₀.table.find? r = some record
  there : cx.table.find? r = some now
  core : now.core = record.core.bereft n
  balance : n + (flight.count r + 1) = cx₀.table.slotsIn dead r

namespace Hit

variable {now : Record} (h : Hit cx₀ dead flight cx r record now n)

include h

theorem creationScope_eq : now.header.creationScope = record.header.creationScope := by
  rw [← Record.creationScope_core, h.core, Record.creationScope_bereft, Record.creationScope_core]

theorem lt_refcount (covered : cx₀.Covered) (tracked : record.header.creationScope ≠ staticScope) :
    n < record.header.refcount := by
  have bound := covered.slotsIn_le h.found tracked dead
  have balance := h.balance
  omega

theorem core_eq (covered : cx₀.Covered) (tracked : record.header.creationScope ≠ staticScope) :
    now.core = record.core.setRefcount (record.header.refcount - n) :=
  h.core.trans (Record.bereft_of_lt (r := record.core) tracked (h.lt_refcount covered tracked))

theorem refcount_eq (covered : cx₀.Covered) (tracked : record.header.creationScope ≠ staticScope) :
    now.header.refcount = record.header.refcount - n :=
  congrArg (·.header.refcount) (h.core_eq covered tracked)

end Hit

namespace Cascading

theorem hit (h : Cascading cx₀ x dead (r :: flight) cx) (covered : cx₀.Covered) :
    ∃ record now n, Hit cx₀ dead flight cx r record now n := by
  have outside : r ∉ dead := by
    intro hr
    have none := (h.unheld r hr).2
    rw [List.count_cons_self] at none
    cases none
  obtain ⟨n, balance, bare, _⟩ := h.left r outside
  rw [List.count_cons_self] at balance
  obtain ⟨holder, _, container, held, mem⟩ :=
    Table.exists_mem_refs_of_slotsIn (t := cx₀.table) (s := dead) (x := r) (by omega)
  obtain ⟨record, found, _⟩ := covered holder container held r mem
  rw [Table.bare_of_find? found] at bare
  obtain ⟨now, there, core⟩ := Table.bare_eq_some_iff.mp bare
  exact ⟨record, now, n, outside, found, there, core, balance⟩

theorem lower {now : Record} (h : Cascading cx₀ x dead (r :: flight) cx)
    (hit : Hit cx₀ dead flight cx r record now n)
    (waits : record.header.creationScope ≠ staticScope → record.header.refcount = n + 1 →
      record.header.creationScope < cx₀.current)
    (sound : cx'.Sound) (current : cx'.current = cx.current)
    (levels : List.Forall₂ Level.Extends cx.scopes.levels cx'.scopes.levels)
    (bare : ∀ y, cx'.table.bare y =
      if y = r then some (record.core.bereft (n + 1)) else cx.table.bare y) :
    Cascading cx₀ x dead flight cx' where
  sound := sound
  current := current.trans h.current
  levels := Level.extends_trans h.levels levels
  origin := h.origin
  least := h.least
  gone := by
    intro y hy
    rw [bare, if_neg (ne_of_mem_of_not_mem hy hit.outside)]
    exact h.gone y hy
  unheld := by
    intro y hy
    obtain ⟨slots, none⟩ := h.unheld y hy
    rw [List.count_cons] at none
    exact ⟨slots, by omega⟩
  left := by
    intro y hy
    by_cases e : y = r
    · refine ⟨n + 1, ?_, ?_, ?_⟩
      · rw [e, ← hit.balance]
        omega
      · rw [bare, if_pos e, e, Table.bare_of_find? hit.found]
        rfl
      · intro other found tracked _ all
        rw [e, hit.found] at found
        cases found
        exact waits tracked all
    · obtain ⟨k, same, before, cond⟩ := h.left y hy
      refine ⟨k, ?_, ?_, cond⟩
      · rw [← same, List.count_cons_of_ne (Ne.symm e)]
      · rw [bare, if_neg e, before]

/-- The last reference to a record is given up, and the record is destroyed. Its counts were all for
slots of destroyed records, so that every closed set has it. -/
theorem destroy {now : Record} (h : Cascading cx₀ x dead (r :: flight) cx) (covered : cx₀.Covered)
    (hit : Hit cx₀ dead flight cx r record now n)
    (tracked : record.header.creationScope ≠ staticScope)
    (last : record.header.refcount = n + 1)
    (inner : cx₀.current ≤ record.header.creationScope)
    (sound : cx'.Sound) (scopes : cx'.scopes = cx.scopes)
    (bare : ∀ y, cx'.table.bare y = if y = r then none else cx.table.bare y) :
    Cascading cx₀ x (insert r dead) (record.payload.refs ++ flight) cx' := by
  have balance := hit.balance
  have slots := covered.slotCount_le hit.found tracked
  have few := cx₀.table.slotsIn_le_slotCount dead r
  have grown := fun y => Table.slotsIn_insert hit.found hit.outside y
  -- no slot of the record refers to what has been destroyed, nor to the record itself
  have away : ∀ y, cx₀.table.slotCount y ≤ cx₀.table.slotsIn dead y →
      record.payload.refs.count y = 0 := by
    intro y full
    have more := grown y
    have bound := cx₀.table.slotsIn_le_slotCount (insert r dead) y
    omega
  refine ⟨sound, ?_, ?_, Finset.mem_insert_of_mem h.origin, ?_, ?_, ?_, ?_⟩
  · exact (congrArg ScopeStack.current scopes).trans h.current
  · rw [scopes]
    exact h.levels
  · intro s closed
    refine Finset.insert_subset ?_ (h.least s closed)
    have more := Table.slotsIn_mono (t := cx₀.table) (h.least s closed) r
    have bound := covered.slotsIn_le hit.found tracked s
    exact closed.orphans r record ⟨hit.found, tracked, by omega, by omega⟩ inner
  · intro y hy
    rw [bare]
    rcases Finset.mem_insert.mp hy with rfl | hy
    · exact ⟨if_pos rfl, record, hit.found, by omega⟩
    · rw [if_neg (ne_of_mem_of_not_mem hy hit.outside)]
      exact h.gone y hy
  · intro y hy
    rw [grown, List.count_append]
    rcases Finset.mem_insert.mp hy with rfl | hy
    · have none := away y (by omega)
      omega
    · obtain ⟨full, none⟩ := h.unheld y hy
      have none' := away y full
      rw [List.count_cons] at none
      omega
  · intro y hy
    rw [Finset.mem_insert, not_or] at hy
    obtain ⟨k, same, before, cond⟩ := h.left y hy.2
    refine ⟨k, ?_, ?_, cond⟩
    · rw [grown, List.count_append, ← same, List.count_cons_of_ne (Ne.symm hy.1)]
      omega
    · rw [bare, if_neg hy.1, before]

end Cascading

theorem bare_deferred (found : cx.table.find? r = some record) (y : Ref) :
    (((cx.table.modifyAt r.index (Record.setRefcount 0)).detach r.index).modifyAt r.index
      (Record.setState .pending)).bare y =
      if y = r then some ((record.core.setRefcount 0).setState .pending) else cx.table.bare y := by
  obtain ⟨detached, hdetached, hcore⟩ := Table.bare_eq_some_iff.mp
    (((cx.table.modifyAt r.index (Record.setRefcount 0)).bare_detach r.index r).trans
      ((Table.bare_modifyAt_of_find? found _ r).trans (if_pos rfl)))
  have after : (detached.setState .pending).core =
      (record.core.setRefcount 0).setState .pending := congrArg (Record.setState .pending) hcore
  rw [Table.bare_modifyAt_of_find? hdetached, Table.bare_detach,
    Table.bare_modifyAt_of_find? found, after]
  split <;> rfl

theorem Sound.bare_destroyed {gone : Record} {table : Table} (sound : cx.Sound)
    (found : cx.table.find? r = some record)
    (removed : ((cx.table.modifyAt r.index (Record.setRefcount 0)).detach r.index).remove r =
      .ok (gone, table)) (y : Ref) :
    table.bare y = if y = r then none else cx.table.bare y := by
  rw [(sound.removed_of_last found removed).1.bare_eq, Table.bare_detach,
    Table.bare_modifyAt_of_find? found]
  split <;> rfl

/-- Giving up a reference in flight never fails. It lowers the count of its record, puts it off or
destroys it, and then the slots of the record are in flight. -/
theorem Cascading.ends_decrement {w : Workspace}
    (h : Cascading cx₀ x dead (r :: flight) w.context) (covered : cx₀.Covered)
    (intact : cx₀.Intact) :
    (Act.decrement .heap false r).Ends w (Act.Either
      (fun doomed cx => ∃ dead', Cascading cx₀ x dead'
          (inFlight (doomed.elim [] Doomed.tasks) ++ flight) cx ∧
        (∀ t ∈ doomed.elim [] Doomed.tasks, t.Releases) ∧
        dead'.card = dead.card + (doomed.elim [] Doomed.tasks).countP Task.buries ∧
        cx.counters.destroyed = w.context.counters.destroyed)
      fun _ => False) := by
  obtain ⟨record, now, n, hit⟩ := h.hit covered
  have tracks : ∀ {other : Record}, w.context.table.find? r = some other → now = other ∧
      (Family.heap.tracks other.header w.context.current = true ↔
        record.header.creationScope ≠ staticScope) := by
    intro other found
    obtain rfl : now = other := Option.some.inj (hit.there.symm.trans found)
    rw [Act.tracks_heap, hit.creationScope_eq]
    exact ⟨rfl, Iff.rfl⟩
  apply (Act.ends_decrement .heap false r w).mono
  intro a cx outcome
  cases outcome with
  | dangling absent =>
    rw [hit.there] at absent
    cases absent
  | ignored found untracked =>
    obtain ⟨rfl, iff⟩ := tracks found
    rw [← Bool.not_eq_true, iff, not_not] at untracked
    refine ⟨dead, ?_, by simp, rfl, rfl⟩
    refine h.lower hit (fun tracked => absurd untracked tracked) h.sound rfl
      (Level.extends_refl _) ?_
    intro y
    split
    · rename_i e
      rw [e, Table.bare_of_find? found, hit.core, Record.bereft_static (r := record.core) untracked,
        Record.bereft_static (r := record.core) untracked]
    · rfl
  | underflow found tracked zero =>
    obtain ⟨rfl, iff⟩ := tracks found
    have less := hit.lt_refcount covered (iff.mp tracked)
    have count := hit.refcount_eq covered (iff.mp tracked)
    omega
  | @lowered _ k found tracked count stays =>
    obtain ⟨rfl, iff⟩ := tracks found
    have counted := iff.mp tracked
    have refcount := hit.refcount_eq covered counted
    obtain ⟨k, rfl⟩ := Nat.exists_eq_succ_of_ne_zero (stays.resolve_left (by simp))
    refine ⟨dead, ?_, by simp, rfl, rfl⟩
    refine h.lower hit (fun _ all => by omega)
      (Move.sound h.sound (.lower found (Act.tracks_heap.mp tracked) count)) rfl
      (Level.extends_refl _) ?_
    intro y
    have after : (now.setRefcount (k + 1)).core = record.core.bereft (n + 1) := by
      rw [Record.bereft_of_lt (r := record.core) counted
        (show n + 1 < record.header.refcount by omega)]
      have shape := congrArg (Record.setRefcount (k + 1)) (hit.core_eq covered counted)
      have value : k + 1 = record.header.refcount - (n + 1) := by omega
      exact shape.trans (congrArg (Record.setRefcount · record.core) value)
    rw [← after]
    exact Table.bare_modifyAt_of_find? found _ y
  | @destroyed _ gone table found tracked last _ inner removed =>
    obtain ⟨rfl, iff⟩ := tracks found
    have counted := iff.mp tracked
    have refcount := hit.refcount_eq covered counted
    have less := hit.lt_refcount covered counted
    rw [hit.creationScope_eq, h.current] at inner
    -- what has been taken out is the record that the cascade began with, but for its count
    obtain ⟨payload, releases⟩ :=
      Record.releasesSlots_eq (h.sound.removed_of_last found removed).2
    obtain ⟨payload', releases'⟩ := Record.releasesSlots_eq (hit.core_eq covered counted)
    obtain ⟨all, refs, one⟩ := Doomed.tasks_of_releasesSlots ⟨r, gone⟩
      (releases.trans (releases'.trans (intact r record hit.found counted)))
    refine ⟨insert r dead, ?_, all, ?_, rfl⟩
    · rw [Option.elim_some, refs, payload, payload']
      exact h.destroy covered hit counted (by omega) inner
        (Move.sound h.sound (.destroy found (Act.tracks_heap.mp tracked) last
          (by rw [hit.creationScope_eq, h.current]; exact inner) removed)) rfl
        (h.sound.bare_destroyed found removed)
    · rw [Option.elim_some, one, Finset.card_insert_of_notMem hit.outside]
  | @deferred _ found tracked last _ outer =>
    obtain ⟨rfl, iff⟩ := tracks found
    have counted := iff.mp tracked
    have refcount := hit.refcount_eq covered counted
    have less := hit.lt_refcount covered counted
    refine ⟨dead, ?_, by simp, rfl, rfl⟩
    refine h.lower hit (fun _ _ => ?_)
      (Move.sound h.sound (.defer found (Act.tracks_heap.mp tracked) last outer))
      (ScopeStack.current_defer _ _ _) (ScopeStack.extends_defer _ _ _) ?_
    · rw [hit.creationScope_eq, h.current] at outer
      exact outer
    · intro y
      have after : (now.core.setRefcount 0).setState .pending = record.core.bereft (n + 1) := by
        rw [Record.bereft_all (r := record.core) counted
          (show record.header.refcount = n + 1 by omega)]
        rw [hit.core_eq covered counted]
        rfl
      rw [← after]
      exact bare_deferred found y

theorem Cascading.bury (h : Cascading cx₀ x dead flight cx) : Cascading cx₀ x dead flight { cx with
    counters := { cx.counters with destroyed := cx.counters.destroyed + 1 } } :=
  ⟨Move.sound h.sound .bury, h.current, h.levels, h.origin, h.least, h.gone, h.unheld, h.left⟩

theorem cascading_of_destroyed (found : cx.table.find? x = some record)
    (last : record.header.refcount = 1) (owned : cx.table.slotCount x = 0) (sound : cx'.Sound)
    (scopes : cx'.scopes = cx.scopes)
    (bare : ∀ y, cx'.table.bare y = if y = x then none else cx.table.bare y) :
    Cascading cx x {x} record.payload.refs cx' := by
  have slots : ∀ y, cx.table.slotsIn {x} y = record.payload.refs.count y := by
    intro y
    rw [Table.slotsIn, Finset.sum_singleton, found]
    rfl
  refine ⟨sound, congrArg ScopeStack.current scopes, ?_, Finset.mem_singleton_self x, ?_, ?_, ?_,
    ?_⟩
  · rw [scopes]
    exact Level.extends_refl _
  · intro s closed
    exact Finset.singleton_subset_iff.mpr closed.origin
  · intro y hy
    rw [Finset.mem_singleton.mp hy, bare, if_pos rfl]
    exact ⟨rfl, record, found, by omega⟩
  · intro y hy
    have few := cx.table.slotsIn_le_slotCount {x} y
    rw [slots] at few ⊢
    rw [Finset.mem_singleton.mp hy] at few ⊢
    omega
  · intro y hy
    refine ⟨0, ?_, ?_, fun _ _ _ pos => absurd pos (Nat.lt_irrefl 0)⟩
    · rw [slots, Nat.zero_add]
    · rw [bare, if_neg (fun e => hy (Finset.mem_singleton.mpr e))]
      cases cx.table.bare y with
      | none => rfl
      | some shown => rw [Option.map_some, Record.bereft_zero]

end Context

/-- The level `new` is `old` with these records at the end of its queue, each of them once. -/
structure Level.Takes (arrivals : Ref → Prop) (old new : Level) : Prop where
  grows : Level.Extends old new
  nodup : new.queue.Nodup
  mem_queue : ∀ y, y ∈ new.queue ↔ y ∈ old.queue ∨ arrivals y

namespace Context

variable {cx₀ cx cx' : Context} {x r y : Ref} {dead : Finset Ref} {record : Record}

/-- What a cascade that begins with `x` comes to: the records of the least closed set are destroyed,
and all others are left without the counts for their slots. Those that have none left wait. -/
structure Cascades (cx : Context) (x : Ref) (dead : Finset Ref) (cx' : Context) : Prop where
  least : IsLeast {s | cx.Closed x s} dead
  destroyed : ∀ y ∈ dead, (∃ record, cx.table.find? y = some record) ∧ cx'.table.find? y = none
  survivors : ∀ y ∉ dead,
    cx'.table.bare y = (cx.table.bare y).map (Record.bereft (cx.table.slotsIn dead y))
  queues : List.Forall₂ (fun old new => Level.Takes (fun y => y ∉ dead ∧ ∃ record,
    cx.Orphaned dead y record ∧ record.header.creationScope = old.id) old new)
    cx.scopes.levels cx'.scopes.levels
  counted : cx'.counters.destroyed = cx.counters.destroyed + dead.card

namespace Cascading

theorem closed (h : Cascading cx₀ x dead [] cx) : cx₀.Closed x dead where
  origin := h.origin
  orphans := by
    intro y record orphaned inner
    by_contra outside
    obtain ⟨n, balance, _, waits⟩ := h.left y outside
    rw [List.count_nil, Nat.add_zero] at balance
    have outer := waits record orphaned.found orphaned.tracked (balance ▸ orphaned.held)
      (orphaned.counts.trans balance.symm)
    exact absurd inner (Nat.not_le_of_lt outer)

theorem survivors (h : Cascading cx₀ x dead [] cx) (hy : y ∉ dead) :
    cx.table.bare y = (cx₀.table.bare y).map (Record.bereft (cx₀.table.slotsIn dead y)) := by
  obtain ⟨n, balance, bare, _⟩ := h.left y hy
  rw [List.count_nil, Nat.add_zero] at balance
  rw [← balance]
  exact bare

theorem not_waits (h : Cascading cx₀ x dead flight cx) (sound : cx₀.Sound) (hy : y ∈ dead)
    (scope : ScopeId) : ¬ cx₀.Waits scope y := by
  rintro ⟨shown, there, pending, _⟩
  obtain ⟨_, record, found, count⟩ := h.gone y hy
  have zero := sound.refcount_of_pending there pending
  cases (Table.bare_of_find? found).symm.trans there
  exact count zero

/-- Of what is left there waits what has waited before, and what has lost its last count. -/
theorem waits_iff (h : Cascading cx₀ x dead [] cx) (hy : y ∉ dead) (scope : ScopeId) :
    cx.Waits scope y ↔ cx₀.Waits scope y ∨
      ∃ record, cx₀.Orphaned dead y record ∧ record.header.creationScope = scope := by
  unfold Waits
  rw [h.survivors hy]
  cases found : cx₀.table.find? y with
  | none =>
    have absent : cx₀.table.bare y = none := Option.map_eq_none_iff.mpr found
    rw [absent]
    constructor
    · rintro ⟨_, there, _⟩
      cases there
    · rintro (⟨_, there, _⟩ | ⟨record, orphaned, _⟩)
      · cases there
      · cases found.symm.trans orphaned.found
  | some record =>
    rw [Table.bare_of_find? found, Option.map_some]
    constructor
    · rintro ⟨_, ⟨⟩, pending, home⟩
      rw [Record.creationScope_bereft] at home
      rcases Record.state_bereft.mp pending with before | ⟨tracked, held, counts⟩
      · exact Or.inl ⟨_, rfl, before, home⟩
      · exact Or.inr ⟨record, ⟨found, tracked, held, counts⟩, home⟩
    · rintro (⟨_, ⟨⟩, pending, home⟩ | ⟨_, orphaned, home⟩)
      · exact ⟨_, rfl, Record.state_bereft.mpr (Or.inl pending), by simpa using home⟩
      · cases found.symm.trans orphaned.found
        exact ⟨_, rfl, Record.state_bereft.mpr
          (Or.inr ⟨orphaned.tracked, orphaned.held, orphaned.counts⟩), by simpa using home⟩

/-- A level takes in what has lost its last count, if that was created in its scope. -/
theorem takes (h : Cascading cx₀ x dead [] cx) (sound : cx₀.Sound) {old new : Level}
    (hold : old ∈ cx₀.scopes.levels) (hnew : new ∈ cx.scopes.levels) (grows : old.Extends new) :
    Level.Takes (fun y => y ∉ dead ∧ ∃ record, cx₀.Orphaned dead y record ∧
      record.header.creationScope = old.id) old new where
  grows := grows
  nodup := by
    have mem := List.mem_reverse.mp hnew
    exact (List.sublist_flatten_of_mem (List.mem_map_of_mem mem)).nodup h.sound.once
  mem_queue := by
    intro y
    rw [h.sound.mem_queue_iff hnew, sound.mem_queue_iff hold, grows.id]
    by_cases hy : y ∈ dead
    · have absent : ¬ cx.Waits old.id y := by
        rintro ⟨_, there, _⟩
        cases (h.gone y hy).1.symm.trans there
      simp only [absent, h.not_waits sound hy, hy, not_true_eq_false, false_and, or_self]
    · rw [h.waits_iff hy]
      simp only [hy, not_false_eq_true, true_and]

theorem cascades (h : Cascading cx₀ x dead [] cx) (sound : cx₀.Sound)
    (counted : cx.counters.destroyed = cx₀.counters.destroyed + dead.card) :
    Cascades cx₀ x dead cx where
  least := ⟨h.closed, fun s closed => h.least s closed⟩
  destroyed := by
    intro y hy
    obtain ⟨absent, record, found, _⟩ := h.gone y hy
    exact ⟨⟨record, found⟩, Option.map_eq_none_iff.mp absent⟩
  survivors := fun _ hy => h.survivors hy
  queues := by
    obtain ⟨length, grows⟩ := List.forall₂_iff_zip.mp h.levels
    refine List.forall₂_iff_zip.mpr ⟨length, fun pair => ?_⟩
    obtain ⟨hold, hnew⟩ := List.of_mem_zip pair
    exact h.takes sound hold hnew (grows pair)
  counted := counted

end Cascading

end Context

namespace Context

/-- The record `x` has come to wait at the end of the queue of its home scope, and no other record
has changed. -/
structure Defers (cx : Context) (x : Ref) (record : Record) (cx' : Context) : Prop where
  waits : cx'.table.bare x = some ((record.core.setRefcount 0).setState .pending)
  others : ∀ y, y ≠ x → cx'.table.bare y = cx.table.bare y
  queued : ∃ below home above, cx.scopes.levels = below ++ home :: above ∧
    home.id = record.header.creationScope ∧
    cx'.scopes.levels = below ++ ScopeStack.enqueue x home :: above

/-- What comes of a record whose last count is given up: it is put off, or a cascade begins with
it. -/
inductive Released (cx : Context) (x : Ref) (record : Record) (cx' : Context) :
    Option Doomed → Prop
  | deferred (outer : record.header.creationScope < cx.current)
      (defers : cx.Defers x record cx') : Released cx x record cx' none
  | destroyed {d : Doomed} (inner : cx.current ≤ record.header.creationScope)
      (cascading : cx.Cascading x {x} (inFlight d.tasks) cx')
      (releases : ∀ t ∈ d.tasks, t.Releases)
      (counted : cx'.counters.destroyed + d.tasks.countP Task.buries = cx.counters.destroyed + 1) :
      Released cx x record cx' (some d)

theorem Decrement.released {cx cx' : Context} {family : Family} {x : Ref} {record : Record}
    {doomed : Option Doomed} (h : cx.Decrement family false x (.ok doomed) cx') (sound : cx.Sound)
    (intact : cx.Intact) (found : cx.table.find? x = some record)
    (tracked : family.tracks record.header cx.current = true) (last : record.header.refcount = 1)
    (owned : cx.table.slotCount x = 0) : cx.Released x record cx' doomed := by
  have counted := Family.creationScope_ne_of_tracks tracked
  cases h with
  | ignored there untracked =>
    cases found.symm.trans there
    cases tracked.symm.trans untracked
  | lowered there _ count stays =>
    cases found.symm.trans there
    have zero := Nat.succ.inj (count.symm.trans last)
    exact absurd zero (stays.resolve_left Bool.false_ne_true)
  | @destroyed _ gone table there _ _ _ inner removed =>
    cases found.symm.trans there
    obtain ⟨payload, releases⟩ := Record.releasesSlots_eq (sound.removed_of_last found removed).2
    obtain ⟨all, refs, one⟩ := Doomed.tasks_of_releasesSlots ⟨x, gone⟩
      (releases.trans (intact x record found counted))
    refine .destroyed inner ?_ all ?_
    · rw [refs, payload]
      exact cascading_of_destroyed found last owned
        (Move.sound sound (.destroy found counted last inner removed)) rfl
        (sound.bare_destroyed found removed)
    · rw [one]
  | deferred there _ _ _ outer =>
    cases found.symm.trans there
    have home : record.header.home.scope = record.header.creationScope :=
      (sound.proper x _ (Table.bare_of_find? found)).home
    refine .deferred outer ⟨?_, ?_, ?_⟩
    · exact (bare_deferred found x).trans (if_pos rfl)
    · exact fun y other => (bare_deferred found y).trans (if_neg other)
    · rw [← home] at counted outer ⊢
      exact ScopeStack.levels_defer sound.numbered (Nat.pos_of_ne_zero counted) outer x

end Context

namespace Machine

variable {cx₀ : Context} {x : Ref} {dead : Finset Ref} {front rest : List Task} {m : Machine}
  {n k : Nat} {t : Task}

/-- The machine is in the middle of a cascade, with the tasks of `front` still to be done for it. -/
structure Cascading (cx₀ : Context) (x : Ref) (rest : List Task) (dead : Finset Ref)
    (front : List Task) (m : Machine) : Prop where
  agenda : m.agenda = front ++ rest
  running : m.fault = none
  releases : ∀ t ∈ front, t.Releases
  state : cx₀.Cascading x dead (inFlight front) m.context
  counted : m.context.counters.destroyed + front.countP Task.buries =
    cx₀.counters.destroyed + dead.card

theorem Cascading.step (h : Cascading cx₀ x rest dead (t :: front) m) (covered : cx₀.Covered)
    (intact : cx₀.Intact) : ∃ dead' front', Cascading cx₀ x rest dead' front' m.step := by
  have agenda : m.agenda = t :: (front ++ rest) := h.agenda
  have others : ∀ t ∈ front, t.Releases := fun t ht => h.releases t (List.mem_cons_of_mem _ ht)
  have first := h.releases t List.mem_cons_self
  have counted := h.counted
  rw [step_eq h.running agenda]
  cases t with
  | bury r scope hooked =>
    refine ⟨dead, front, rfl, h.running, others, h.state.bury, ?_⟩
    rw [List.countP_cons] at counted
    calc m.context.counters.destroyed + 1 + front.countP Task.buries
      _ = m.context.counters.destroyed + (front.countP Task.buries + 1) := by omega
      _ = cx₀.counters.destroyed + dead.card := counted
  | releaseRefs refs =>
    cases refs with
    | nil => exact ⟨dead, front, rfl, h.running, others, h.state, counted⟩
    | cons r refs =>
      unfold execute
      refine act_cases (m := { m with agenda := front ++ rest })
        (Q := fun m' => ∃ dead' front', Cascading cx₀ x rest dead' front' m')
        (h.state.ends_decrement (w := m.workspace) covered intact) ?_ ?_
      · intro e w _ impossible
        exact impossible.elim
      · rintro doomed w _ ⟨dead', state, all, card, same⟩
        refine ⟨dead', doomed.elim [] Doomed.tasks ++ .releaseRefs refs :: front, ?_, h.running, ?_,
          ?_, ?_⟩
        · rw [List.append_assoc]
          exact List.append_assoc _ _ _
        · intro t ht
          rcases List.mem_append.mp ht with new | old
          · exact all t new
          · rcases List.mem_cons.mp old with rfl | old
            · exact trivial
            · exact others t old
        · rw [inFlight_append, inFlight_cons]
          exact state
        · have no : ∀ refs, ¬ (Task.releaseRefs refs).buries = true := fun _ => Bool.false_ne_true
          rw [List.countP_cons_of_neg (no _)] at counted
          rw [List.countP_append, List.countP_cons_of_neg (no _), card]
          have destroyed : w.context.counters.destroyed = m.context.counters.destroyed := same
          show w.context.counters.destroyed + _ = _
          omega
  | perform | runScript | finish | exitScope | leaveBlock | unwind | drain | sweep =>
    exact first.elim

theorem Cascading.completes (h : Cascading cx₀ x rest dead front m) (covered : cx₀.Covered)
    (intact : cx₀.Intact) :
    ∃ n dead', Completes rest m n ∧ Cascading cx₀ x rest dead' [] (m.steps n) := by
  -- every step takes some of the weight of the machine
  induction hw : m.weight using Nat.strong_induction_on generalizing m dead front with
  | _ w ih =>
    cases front with
    | nil => exact ⟨0, dead, .done h.agenda h.running, h⟩
    | cons t front =>
      have agenda : m.agenda = t :: (front ++ rest) := h.agenda
      have lighter := m.weight_step (by simp [isFinished, h.running, agenda])
      obtain ⟨dead', front', next⟩ := h.step covered intact
      obtain ⟨n, dead'', completes, ended⟩ := ih _ (hw ▸ lighter) next rfl
      exact ⟨n + 1, dead'', .step agenda h.running completes, ended⟩

section Release

variable {site : Site} {policy : Policy} {bind : Option String} {u : WrittenUpdate}
  {family : Family} {record : Record}

theorem released_step (sound : m.context.Sound) (running : m.fault = none)
    (agenda : m.agenda = .perform site (.update u policy bind) :: rest)
    (read : m.bindings.update u = .ok (.decrement family false (some x)))
    (intact : m.context.Intact) (found : m.context.table.find? x = some record)
    (tracked : family.tracks record.header m.context.current = true)
    (last : record.header.refcount = 1) (owned : m.context.table.slotCount x = 0) :
    ∃ doomed, m.context.Released x record m.step.context doomed ∧ m.step.fault = none ∧
      m.step.agenda = doomed.elim [] Doomed.tasks ++
        .finish ⟨site, policy, bind⟩ [] .done :: rest := by
  rw [step_eq running agenda]
  unfold execute perform
  dsimp only
  rw [read]
  have ends : (Act.change (.decrement family false (some x))).Ends m.workspace (Act.Either
      (fun effect cx => effect.answer = .done ∧ effect.closing = [] ∧
        m.context.Decrement family false x (.ok effect.doomed) cx) fun _ => False) := by
    refine (Act.ends_decrement family false x m.workspace).map _ ?_ ?_
    · intro e cx failed
      cases failed with
      | dangling absent => cases found.symm.trans absent
      | underflow there _ zero =>
        cases found.symm.trans there
        cases last.symm.trans zero
    · exact fun doomed cx h => ⟨rfl, rfl, h⟩
  refine act_cases (m := { m with agenda := rest }) (Q := fun m' => ∃ doomed,
    m.context.Released x record m'.context doomed ∧ m'.fault = none ∧
      m'.agenda = doomed.elim [] Doomed.tasks ++ .finish ⟨site, policy, bind⟩ [] .done :: rest)
    ends ?_ ?_
  · exact fun e w _ impossible => impossible.elim
  · rintro ⟨answer, doomed, closing⟩ w _ ⟨rfl, rfl, outcome⟩
    exact ⟨doomed, outcome.released sound intact found tracked last owned, running,
      List.append_assoc _ _ _⟩

/-- A client gives up the last count of a record, in a state where slots refer to records that are
there and counted. A record of an enclosing scope comes to wait at the end of the queue of its home
scope, and no other record changes. From any other one a cascade starts, which destroys the least
set of records that has it and whatever is held by slots in the set alone, records of enclosing
scopes apart. Those come to wait if they lose their last count, and every other record keeps all its
counts but those for slots in the set. -/
theorem Reachable.release_cascade (h : m.Reachable) (running : m.fault = none)
    (agenda : m.agenda = .perform site (.update u policy bind) :: rest)
    (read : m.bindings.update u = .ok (.decrement family false (some x)))
    (covered : m.context.Covered) (intact : m.context.Intact)
    (found : m.context.table.find? x = some record)
    (tracked : family.tracks record.header m.context.current = true)
    (last : record.header.refcount = 1)
    (owned : m.context.table.slotCount x < record.header.refcount) :
    ∃ n, Returns rest m n site (.ok .done) ∧
      (record.header.creationScope < m.context.current →
        m.context.Defers x record (m.steps n).context) ∧
      (m.context.current ≤ record.header.creationScope →
        ∃ dead, m.context.Cascades x dead (m.steps n).context) := by
  obtain ⟨doomed, released, still, next⟩ := released_step h.sound running agenda read intact found
    tracked last (by omega)
  have answered : ∀ {n}, Completes (.finish ⟨site, policy, bind⟩ [] .done :: rest) m.step n →
      Returns rest m (n + 2) site (.ok .done) ∧
        (m.steps (n + 2)).context = (m.step.steps n).context := by
    intro n completes
    obtain ⟨returns, context⟩ := completes.returns
    exact ⟨⟨@Completes.step _ _ _ [] _ agenda running returns.completes, returns.tells⟩, context⟩
  cases released with
  | deferred outer defers =>
    obtain ⟨returns, context⟩ := answered (.done next still)
    refine ⟨2, returns, fun _ => ?_, fun inner => absurd inner (Nat.not_le_of_lt outer)⟩
    rw [context]
    exact defers
  | destroyed inner cascading releases counted =>
    have started : Cascading m.context x (.finish ⟨site, policy, bind⟩ [] .done :: rest) {x} _
        m.step := ⟨next, still, releases, cascading, counted⟩
    obtain ⟨n, dead, completes, ended⟩ := started.completes covered intact
    obtain ⟨returns, context⟩ := answered completes
    refine ⟨n + 2, returns, fun outer => absurd inner (Nat.not_le_of_lt outer), fun _ => ⟨dead, ?_⟩⟩
    rw [context]
    exact ended.state.cascades h.sound ended.counted

end Release

/-- A list is to be given up that holds another list and a string. That other list holds the string
twice, and a string of the enclosing scope. -/
def sharing : Machine :=
  (start {} .ample [.update (.newStr []) .strict none, .update .pushScope .strict none,
    .update (.newStr []) .strict none,
    .update (.newList .object [.object (.ref ⟨3, 0⟩), .object (.ref ⟨3, 0⟩),
      .object (.ref ⟨2, 0⟩)]) .strict none,
    .update (.newList .object [.object (.ref ⟨4, 0⟩), .object (.ref ⟨3, 0⟩)]) .strict none,
    .update (.decrement .heap false (.ref ⟨2, 0⟩)) .strict none,
    .update (.decrement .heap false (.ref ⟨3, 0⟩)) .strict none,
    .update (.decrement .heap false (.ref ⟨4, 0⟩)) .strict none,
    .update (.decrement .heap false (.ref ⟨5, 0⟩)) .strict none]).steps 16

theorem release_cascade_sharing : sharing.context.Covered ∧ sharing.context.Intact ∧
    sharing.context.table.slotCount ⟨3, 0⟩ = 3 ∧ ∃ n dead,
      Returns [] sharing n .program (.ok .done) ∧
      sharing.context.Cascades ⟨5, 0⟩ dead (sharing.steps n).context := by
  have covered : sharing.context.Covered := by decide +kernel
  have intact : sharing.context.Intact := by decide +kernel
  have agenda : sharing.agenda = [.perform .program
      (.update (.decrement .heap false (.ref ⟨5, 0⟩)) .strict none)] := by
    with_unfolding_all rfl
  have given : sharing.fault = none ∧ ∃ record ∈ sharing.context.table.find? ⟨5, 0⟩,
      Family.heap.tracks record.header sharing.context.current = true ∧
      record.header.refcount = 1 ∧
      sharing.context.table.slotCount ⟨5, 0⟩ < record.header.refcount ∧
      sharing.context.current ≤ record.header.creationScope := by decide +kernel
  obtain ⟨running, record, found, tracked, last, owned, inner⟩ := given
  have reached : sharing.Reachable := (Reachable.start _ _ _).steps 16
  obtain ⟨n, returns, _, cascades⟩ :=
    reached.release_cascade running agenda rfl covered intact found tracked last owned
  obtain ⟨dead, cascades⟩ := cascades inner
  exact ⟨covered, intact, by decide +kernel, n, dead, returns, cascades⟩

end Machine

end ScopedHeap
