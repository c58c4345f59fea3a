import ScopedHeap.Counting
import ScopedHeap.Proofs.Scopes
import ScopedHeap.Proofs.Table.LiveList

/-!
# The moves of a context

Whatever is done to a context comes down to the few moves listed in `Context.Move`, each with the
conditions under which it is made and labelled with a `Deed` that tells what it was.
`Context.Path` chains moves and their labels.

`Context.Sound` is what holds between moves: vacant cells are on the free list, live records on the
live list, pending records in the queue of their home scope and nowhere else. Every move keeps it
(`Move.sound`), and so does every path.
-/
namespace ScopedHeap

inductive Deed where
  /-- A reference is counted. A static record takes part without its count changing. -/
  | raise (r : Ref)
  /-- A reference is given up, and others are left. -/
  | lower (r : Ref)
  /-- A reference is given up by a decrement that keeps its record. -/
  | keep (r : Ref)
  /-- The last reference is given up in a scope that the home of the record encloses. -/
  | defer (r : Ref)
  /-- The last reference is given up, and the record is taken out of the table. -/
  | destroy (d : Doomed)
  /-- A record is taken off its queue and out of the table. -/
  | drain (d : Doomed)
  | allocate (r : Ref) (payload : Payload)
  | allocateStatic (r : Ref) (payload : Payload)
  | hook (r : Ref) (hook : Hook)
  | store (r : Ref) (old new : Payload)
  | enter
  | leave
  /-- The hook of a record is over. -/
  | bury
  /-- A live record is given up. -/
  | sweep (d : Doomed)

/-- The keys have got room for more and the values, which are as many as they can be, have not. -/
def SlotDict.Lopsided (d : SlotDict) : Prop :=
  d.keys.capacity = d.values.capacity * 2 ∧ d.values.length = d.values.capacity

/-- Keys and values go together: there are as many, with room for as many unless memory ran out
between the two. -/
structure SlotDict.Paired (d : SlotDict) : Prop where
  length : d.keys.length = d.values.length
  inside : d.values.length ≤ d.values.capacity
  pos : 0 < d.values.capacity
  capacity : d.keys.capacity = d.values.capacity ∨ d.Lopsided

def Payload.Paired : Payload → Prop
  | .dict d => d.Paired
  | _ => True

theorem Payload.paired_empty : Payload.empty.Paired := trivial

def Payload.isContainer : Payload → Bool
  | .list _ | .dict _ | .set _ => true
  | .raw _ | .str _ | .text _ => false

theorem Payload.paired_of_plain {p : Payload} (h : p.isContainer = false) : p.Paired := by
  cases p with
  | dict => cases h
  | raw | str | text | list | set => trivial

namespace Context

inductive Move (cx : Context) : Deed → Context → Prop
  | raise {r : Ref} {record : Record} (found : cx.table.find? r = some record)
      (tracked : record.header.creationScope ≠ staticScope)
      (awake : record.header.state ≠ .pending) :
      Move cx (.raise r) { cx with
        table := cx.table.modifyAt r.index (Record.setRefcount (record.header.refcount + 1)) }
  | raiseStatic {r : Ref} {record : Record} (found : cx.table.find? r = some record)
      (static : record.header.creationScope = staticScope) : Move cx (.raise r) cx
  | lower {r : Ref} {record : Record} {n : Nat} (found : cx.table.find? r = some record)
      (tracked : record.header.creationScope ≠ staticScope)
      (count : record.header.refcount = n + 2) :
      Move cx (.lower r) { cx with table := cx.table.modifyAt r.index (Record.setRefcount (n + 1)) }
  | lowerStatic {r : Ref} {record : Record} (found : cx.table.find? r = some record)
      (static : record.header.creationScope = staticScope) : Move cx (.lower r) cx
  | keep {r : Ref} {record : Record} {n : Nat} (found : cx.table.find? r = some record)
      (tracked : record.header.creationScope ≠ staticScope)
      (count : record.header.refcount = n + 1) :
      Move cx (.keep r) { cx with table := cx.table.modifyAt r.index (Record.setRefcount n) }
  | defer {r : Ref} {record : Record} (found : cx.table.find? r = some record)
      (tracked : record.header.creationScope ≠ staticScope)
      (last : record.header.refcount = 1)
      (outer : record.header.creationScope < cx.current) :
      Move cx (.defer r) { cx with
        table := ((cx.table.modifyAt r.index (Record.setRefcount 0)).detach r.index).modifyAt
          r.index (Record.setState .pending)
        scopes := (cx.scopes.defer record.header.home r).2
        counters := { cx.counters with deferred := cx.counters.deferred + 1 } }
  | destroy {r : Ref} {record gone : Record} {table : Table}
      (found : cx.table.find? r = some record)
      (tracked : record.header.creationScope ≠ staticScope)
      (last : record.header.refcount = 1)
      (inner : cx.current ≤ record.header.creationScope)
      (removed : ((cx.table.modifyAt r.index (Record.setRefcount 0)).detach r.index).remove r =
        .ok (gone, table)) :
      Move cx (.destroy ⟨r, gone⟩) { cx with table }
  | drain {r : Ref} {rest : List Ref} {gone : Record} {table : Table}
      (queue : cx.scopes.active.queue = r :: rest)
      (removed : cx.table.remove r = .ok (gone, table)) :
      Move cx (.drain ⟨r, gone⟩) { cx with
        table, scopes := { cx.scopes with active := { cx.scopes.active with queue := rest } } }
  | allocate {grant : Grant} {payload : Payload} {r : Ref} {table : Table}
      (inserted : cx.table.insert grant ⟨.fresh cx.current cx.scopes.activeHome, payload⟩ =
        .ok (r, table))
      (plain : payload.isContainer = false) :
      Move cx (.allocate r payload) { cx with
        table := table.attach r.index
        counters := { cx.counters with allocated := cx.counters.allocated + 1 } }
  /-- A container comes with the hook that releases its slots. -/
  | allocateContainer {grant : Grant} {payload : Payload} {r : Ref} {table : Table}
      (inserted : cx.table.insert grant ⟨.fresh cx.current cx.scopes.activeHome, payload⟩ =
        .ok (r, table))
      (paired : payload.Paired) :
      Move cx (.allocate r payload) { cx with
        table := (table.attach r.index).modifyAt r.index
          (Record.setHook (.releaseSlots payload.kind))
        counters := { cx.counters with allocated := cx.counters.allocated + 1 } }
  | allocateStatic {grant : Grant} {payload : Payload} {r : Ref} {table : Table}
      (inserted : cx.table.insert grant ⟨.forever, payload⟩ = .ok (r, table))
      (paired : payload.Paired) :
      Move cx (.allocateStatic r payload) { cx with table }
  | hook {r : Ref} {record : Record} {hook : Hook} (found : cx.table.find? r = some record)
      (free : record.header.hook = none) :
      Move cx (.hook r hook) { cx with table := cx.table.modifyAt r.index (Record.setHook hook) }
  | store {r : Ref} {record : Record} {payload : Payload} (found : cx.table.find? r = some record)
      (paired : payload.Paired) :
      Move cx (.store r record.payload payload) { cx with
        table := cx.table.modifyAt r.index (Record.setPayload payload) }
  | enter : Move cx .enter { cx with scopes := cx.scopes.push }
  | leave {level : Level} {scopes : ScopeStack} (empty : cx.scopes.active.queue = [])
      (popped : cx.scopes.pop = .ok (level, scopes)) : Move cx .leave { cx with scopes }
  | bury : Move cx .bury { cx with
      counters := { cx.counters with destroyed := cx.counters.destroyed + 1 } }
  | sweep {r : Ref} {rest : List Ref} {gone : Record} {table : Table}
      (first : cx.table.live = r :: rest)
      (removed : (cx.table.detach r.index).remove r = .ok (gone, table)) :
      Move cx (.sweep ⟨r, gone⟩) { cx with
        table, counters := { cx.counters with leaked := cx.counters.leaked + 1 } }

/-- A sequence of moves with their labels. -/
inductive Path : Context → List Deed → Context → Prop
  | refl (cx : Context) : Path cx [] cx
  | move {a b c : Context} {d : Deed} {ds : List Deed} :
      Move a d b → Path b ds c → Path a (d :: ds) c

namespace Path

variable {a b c : Context} {d : Deed} {ds es : List Deed}

theorem single (h : Move a d b) : Path a [d] b := .move h (.refl b)

theorem trans (h : Path a ds b) (k : Path b es c) : Path a (ds ++ es) c := by
  induction h with
  | refl => exact k
  | move first _ ih => exact .move first (ih k)

theorem split (h : Path a (ds ++ es) c) : ∃ b, Path a ds b ∧ Path b es c := by
  induction ds generalizing a with
  | nil => exact ⟨a, .refl a, h⟩
  | cons d ds ih =>
    cases h with
    | move first rest =>
      obtain ⟨b, path, rest⟩ := ih rest
      exact ⟨b, .move first path, rest⟩

theorem invariant {P : Context → Prop} (keeps : ∀ {a d b}, P a → Move a d b → P b)
    (path : Path a ds b) (h : P a) : P b := by
  induction path with
  | refl => exact h
  | move first _ ih => exact ih (keeps h first)

end Path

end Context

/-- What every record is like. -/
structure Record.Proper (r : Record) : Prop where
  home : r.header.home.scope = r.header.creationScope
  static : r.header.state = .static ↔ r.header.creationScope = staticScope
  paired : r.payload.Paired

namespace Context

/-- The live list has the live records. -/
def Enlisted (t : Table) (l : List Nat) : Prop :=
  t.Listed l ∧ ∀ r record, t.bare r = some record → (record.header.state = .live ↔ r.index ∈ l)

structure Sound (cx : Context) : Prop where
  vacant : cx.table.Vacant
  numbered : cx.scopes.Numbered
  listed : ∃ l, Enlisted cx.table l
  proper : ∀ r record, cx.table.bare r = some record → record.Proper
  /-- What waits on a level was created in its scope and is referred to no more. -/
  filed : ∀ level ∈ cx.scopes.stack, ∀ r ∈ level.queue, ∃ record, cx.table.bare r = some record ∧
    record.header.state = .pending ∧ record.header.creationScope = level.id ∧
    record.header.refcount = 0
  once : cx.scopes.waiting.Nodup
  pending : ∀ r record, cx.table.bare r = some record → record.header.state = .pending →
    r ∈ cx.scopes.waiting

variable {cx : Context} {r x : Ref} {record shown : Record}

theorem Sound.of_eq {cx' : Context} (h : cx.Sound) (table : cx'.table = cx.table)
    (scopes : cx'.scopes = cx.scopes) : cx'.Sound := by
  obtain ⟨vacant, numbered, listed, proper, filed, once, pending⟩ := h
  rw [← table] at vacant listed proper filed pending
  rw [← scopes] at numbered filed once pending
  exact ⟨vacant, numbered, listed, proper, filed, once, pending⟩

theorem Sound.exists_bare_of_waiting (h : cx.Sound) (hr : r ∈ cx.scopes.waiting) :
    ∃ record, cx.table.bare r = some record ∧ record.header.state = .pending ∧
      record.header.refcount = 0 := by
  obtain ⟨level, hlevel, hr⟩ := List.mem_flatMap.mp hr
  obtain ⟨record, hbare, hstate, _, hcount⟩ := h.filed level hlevel r hr
  exact ⟨record, hbare, hstate, hcount⟩

theorem Sound.refcount_of_pending (h : cx.Sound) (hbare : cx.table.bare r = some shown)
    (hstate : shown.header.state = .pending) : shown.header.refcount = 0 := by
  obtain ⟨other, hother, _, hcount⟩ := h.exists_bare_of_waiting (h.pending r shown hbare hstate)
  rw [hbare] at hother
  rw [Option.some.inj hother]
  exact hcount

theorem Sound.live_of_counted (h : cx.Sound) (hbare : cx.table.bare r = some shown)
    (tracked : shown.header.creationScope ≠ staticScope) (count : shown.header.refcount ≠ 0) :
    shown.header.state = .live := by
  cases hstate : shown.header.state with
  | live => rfl
  | pending => exact absurd (h.refcount_of_pending hbare hstate) count
  | static => exact absurd ((h.proper r shown hbare).static.mp hstate) tracked

theorem index_ne_of_ne {t : Table} (hr : t.bare r = some record) (hx : t.bare x = some shown)
    (h : x ≠ r) : x.index ≠ r.index := by
  obtain ⟨_, hr, _⟩ := Table.bare_eq_some_iff.mp hr
  obtain ⟨_, hx, _⟩ := Table.bare_eq_some_iff.mp hx
  exact fun hi => h (Table.eq_of_index_eq hr hx hi)

/-- Changes of a record in place that keep its state and its scope. -/
theorem Sound.amend (h : cx.Sound) (found : cx.table.find? r = some record)
    {f : Record → Record} (links : Record.KeepsLinks f)
    (state : (f record).header.state = record.header.state)
    (scope : (f record).header.creationScope = record.header.creationScope)
    (home : (f record).header.home = record.header.home)
    (count : record.header.state = .pending →
      (f record).header.refcount = record.header.refcount)
    (paired : record.payload.Paired → (f record).payload.Paired) :
    Sound { cx with table := cx.table.modifyAt r.index f } := by
  have hbare := Table.bare_of_find? found
  have after := Table.bare_modifyAt_of_find? found f
  -- what is shown under a reference afterwards agrees with what was shown before
  have before : ∀ x shown, (cx.table.modifyAt r.index f).bare x = some shown →
      ∃ old, cx.table.bare x = some old ∧ shown.header.state = old.header.state ∧
        shown.header.creationScope = old.header.creationScope ∧
        shown.header.home = old.header.home ∧ (old.payload.Paired → shown.payload.Paired) := by
    intro x shown hx
    rw [after] at hx
    split at hx
    · rename_i e
      rw [← Option.some.inj hx, e]
      exact ⟨record.core, hbare, state, scope, home, paired⟩
    · exact ⟨shown, hx, rfl, rfl, rfl, id⟩
  obtain ⟨l, hl, live⟩ := h.listed
  refine ⟨h.vacant.modifyAt _ _, h.numbered, ⟨l, hl.modifyAt links _, ?_⟩, ?_, ?_, h.once, ?_⟩
  · intro x shown hx
    obtain ⟨old, hold, hstate, _⟩ := before x shown hx
    rw [hstate]
    exact live x old hold
  · intro x shown hx
    obtain ⟨old, hold, hstate, hscope, hhome, hpaired⟩ := before x shown hx
    have hproper := h.proper x old hold
    exact ⟨by rw [hhome, hscope, hproper.home], by rw [hstate, hscope, hproper.static],
      hpaired hproper.paired⟩
  · intro level hlevel x hx
    obtain ⟨old, hold, hstate, hscope, hcount⟩ := h.filed level hlevel x hx
    by_cases e : x = r
    · rw [e, hbare] at hold
      obtain rfl := Option.some.inj hold
      refine ⟨(f record).core, by rw [after, if_pos e], state.trans hstate, scope.trans hscope, ?_⟩
      exact (count hstate).trans hcount
    · exact ⟨old, by rw [after, if_neg e]; exact hold, hstate, hscope, hcount⟩
  · intro x shown hx hpending
    obtain ⟨old, hold, hstate, _⟩ := before x shown hx
    exact h.pending x old hold (hstate.symm.trans hpending)

theorem Sound.setRefcount (h : cx.Sound) (found : cx.table.find? r = some record)
    (awake : record.header.state ≠ .pending) (n : Nat) :
    Sound { cx with table := cx.table.modifyAt r.index (Record.setRefcount n) } :=
  h.amend found (fun _ => ⟨rfl, rfl⟩) rfl rfl rfl (fun hstate => absurd hstate awake) id

/-- A live record may go. -/
theorem Sound.dismiss (h : cx.Sound) (found : cx.table.find? r = some record)
    (live : record.header.state = .live) {gone : Record} {table : Table}
    (removed : (cx.table.detach r.index).remove r = .ok (gone, table)) :
    Sound { cx with table } := by
  obtain ⟨spec, vacant⟩ :=
    Table.remove_spec (h.vacant.relink (cx.table.relinks_detach r.index)) removed
  have hbare := Table.bare_of_find? found
  have after : ∀ x, table.bare x = if x = r then none else cx.table.bare x := by
    intro x
    rw [spec.bare_eq, Table.bare_detach]
  have keep : ∀ x shown, table.bare x = some shown → x ≠ r ∧ cx.table.bare x = some shown := by
    intro x shown hx
    rw [after] at hx
    split at hx
    · cases hx
    · rename_i e
      exact ⟨e, hx⟩
  obtain ⟨l, hl, hlive⟩ := h.listed
  have hr : r.index ∈ l := (hlive r _ hbare).mp live
  have hgone : r.index ∉ l.erase r.index := by
    rw [hl.nodup.mem_erase_iff]
    exact fun e => e.1 rfl
  refine ⟨vacant, h.numbered, ⟨l.erase r.index, (hl.detach hr).remove spec hgone, ?_⟩, ?_, ?_,
    h.once, ?_⟩
  · intro x shown hx
    obtain ⟨hne, hx⟩ := keep x shown hx
    rw [hlive x shown hx, hl.nodup.mem_erase_iff]
    exact (and_iff_right (index_ne_of_ne hbare hx hne)).symm
  · intro x shown hx
    exact h.proper x shown (keep x shown hx).2
  · intro level hlevel x hx
    obtain ⟨old, hold, hstate, hrest⟩ := h.filed level hlevel x hx
    have hne : x ≠ r := by
      rintro rfl
      rw [hbare] at hold
      obtain rfl := Option.some.inj hold
      have := hstate.symm.trans live
      cases this
    exact ⟨old, by rw [after, if_neg hne]; exact hold, hstate, hrest⟩
  · intro x shown hx
    exact h.pending x shown (keep x shown hx).2

/-- A live record that nothing refers to may be put off to its home scope. -/
theorem Sound.postpone (h : cx.Sound) (found : cx.table.find? r = some record)
    (live : record.header.state = .live) (zero : record.header.refcount = 0)
    (outer : record.header.creationScope < cx.current) :
    Sound { cx with
      table := (cx.table.detach r.index).modifyAt r.index (Record.setState .pending)
      scopes := (cx.scopes.defer record.header.home r).2 } := by
  have hbare := Table.bare_of_find? found
  have hproper := h.proper r _ hbare
  have hhome : record.header.home.scope = record.header.creationScope := hproper.home
  have tracked : record.header.creationScope ≠ staticScope := by
    intro e
    have := (hproper.static.mpr e).symm.trans live
    cases this
  have pos : 0 < record.header.home.scope := by
    rw [hhome]
    exact Nat.pos_of_ne_zero tracked
  have lt : record.header.home.scope < cx.scopes.current := by
    rw [hhome]
    exact outer
  obtain ⟨detached, hdetached, hcore⟩ := Table.bare_eq_some_iff.mp
    ((cx.table.bare_detach r.index r).trans hbare)
  have fields : ∀ {α : Type} (g : Record → α), g detached.core = g record.core :=
    fun g => congrArg g hcore
  have after : ∀ x, ((cx.table.detach r.index).modifyAt r.index
      (Record.setState .pending)).bare x =
        if x = r then some (detached.setState .pending).core else cx.table.bare x := by
    intro x
    rw [Table.bare_modifyAt_of_find? hdetached, cx.table.bare_detach]
  have perm := ScopeStack.perm_waiting_defer (r := r) h.numbered pos lt
  have hfresh : r ∉ cx.scopes.waiting := by
    intro hmem
    obtain ⟨old, hold, hstate, _⟩ := h.exists_bare_of_waiting hmem
    rw [hbare] at hold
    obtain rfl := Option.some.inj hold
    have := hstate.symm.trans live
    cases this
  obtain ⟨l, hl, hlive⟩ := h.listed
  have hr : r.index ∈ l := (hlive r _ hbare).mp live
  have scope : detached.header.creationScope = record.header.creationScope :=
    fields fun s => s.header.creationScope
  refine ⟨(h.vacant.relink (cx.table.relinks_detach _)).modifyAt _ _, h.numbered.defer _ _,
    ⟨l.erase r.index,
      (hl.detach hr).modifyAt (f := Record.setState .pending) (fun _ => ⟨rfl, rfl⟩) _, ?_⟩,
    ?_, ?_, ?_, ?_⟩
  · intro x shown hx
    rw [after] at hx
    rw [hl.nodup.mem_erase_iff]
    split at hx
    · rename_i e
      rw [← Option.some.inj hx, e]
      constructor
      · intro hstate
        cases hstate
      · intro hmem
        exact absurd rfl hmem.1
    · rename_i e
      rw [hlive x shown hx]
      exact (and_iff_right (index_ne_of_ne hbare hx e)).symm
  · intro x shown hx
    rw [after] at hx
    split at hx
    · rw [← Option.some.inj hx]
      refine ⟨?_, ?_, ?_⟩
      · exact (fields fun s => s.header.home.scope).trans (hhome.trans scope.symm)
      · constructor
        · intro hstate
          cases hstate
        · intro e
          exact absurd (scope.symm.trans e) tracked
      · show detached.payload.Paired
        rw [show detached.payload = record.payload from fields fun s => s.payload]
        exact hproper.paired
    · exact h.proper x shown hx
  · intro level hlevel x hx
    rcases ScopeStack.mem_queue_defer h.numbered pos lt hlevel hx with ⟨rfl, hid⟩ | hold
    · refine ⟨(detached.setState .pending).core, by rw [after, if_pos rfl], rfl, ?_, ?_⟩
      · exact scope.trans (hhome.symm.trans hid.symm)
      · exact (fields fun s => s.header.refcount).trans zero
    · obtain ⟨old, hmem, hid, hx⟩ := hold
      obtain ⟨shown, hshown, hstate, hscope, hcount⟩ := h.filed old hmem x hx
      have hne : x ≠ r := by
        rintro rfl
        exact hfresh (List.mem_flatMap.mpr ⟨old, hmem, hx⟩)
      exact ⟨shown, by rw [after, if_neg hne]; exact hshown, hstate, hscope.trans hid, hcount⟩
  · rw [perm.nodup_iff, List.nodup_cons]
    exact ⟨hfresh, h.once⟩
  · intro x shown hx hstate
    rw [perm.mem_iff, List.mem_cons]
    rw [after] at hx
    split at hx
    · rename_i e
      exact Or.inl e
    · exact Or.inr (h.pending x shown hx hstate)

/-- The record that waits first on the active level may go. -/
theorem Sound.takeUp (h : cx.Sound) {rest : List Ref} {gone : Record} {table : Table}
    (queue : cx.scopes.active.queue = r :: rest)
    (removed : cx.table.remove r = .ok (gone, table)) :
    Sound { cx with
      table, scopes := { cx.scopes with active := { cx.scopes.active with queue := rest } } } := by
  obtain ⟨spec, vacant⟩ := Table.remove_spec h.vacant removed
  have hbare := Table.bare_of_find? spec.found
  have after := spec.bare_eq
  have keep : ∀ x shown, table.bare x = some shown → x ≠ r ∧ cx.table.bare x = some shown := by
    intro x shown hx
    rw [after] at hx
    split at hx
    · cases hx
    · rename_i e
      exact ⟨e, hx⟩
  have hwaiting := ScopeStack.waiting_cons queue
  have honce := h.once
  rw [hwaiting, List.nodup_cons] at honce
  obtain ⟨old, hold, hpending, _⟩ := h.filed _ List.mem_cons_self r (by rw [queue]; simp)
  obtain ⟨l, hl, hlive⟩ := h.listed
  have hr : r.index ∉ l := by
    intro hmem
    have := hpending.symm.trans ((hlive r old hold).mpr hmem)
    cases this
  refine ⟨vacant, ⟨h.numbered.1, h.numbered.2⟩, ⟨l, hl.remove spec hr, ?_⟩, ?_, ?_, honce.2, ?_⟩
  · intro x shown hx
    exact hlive x shown (keep x shown hx).2
  · intro x shown hx
    exact h.proper x shown (keep x shown hx).2
  · intro level hlevel x hx
    have hmem : x ∈ ({ cx.scopes with active := { cx.scopes.active with queue := rest } } :
        ScopeStack).waiting := List.mem_flatMap.mpr ⟨level, hlevel, hx⟩
    have hne : x ≠ r := by
      rintro rfl
      exact honce.1 hmem
    have hfiled : ∃ old ∈ cx.scopes.stack, old.id = level.id ∧ x ∈ old.queue := by
      rcases List.mem_cons.mp hlevel with rfl | hlevel
      · exact ⟨_, List.mem_cons_self, rfl, by rw [queue]; exact List.mem_cons_of_mem _ hx⟩
      · exact ⟨level, List.mem_cons_of_mem _ hlevel, rfl, hx⟩
    obtain ⟨old, hold, hid, hx⟩ := hfiled
    obtain ⟨shown, hshown, hstate, hscope, hcount⟩ := h.filed old hold x hx
    exact ⟨shown, by rw [after, if_neg hne]; exact hshown, hstate, hscope.trans hid, hcount⟩
  · intro x shown hx hstate
    obtain ⟨hne, hx⟩ := keep x shown hx
    have hmem := h.pending x shown hx hstate
    rw [hwaiting] at hmem
    exact (List.mem_cons.mp hmem).resolve_left hne

/-- A record that does not wait may come in. It is put on the live list if it is live. -/
theorem Sound.letIn (h : cx.Sound) {t table : Table} (inserted : Table.Inserted cx.table record r t)
    (relinks : Table.Relinks t table) (vacant : table.Vacant)
    (proper : record.Proper) (awake : record.header.state ≠ .pending)
    (listed : ∀ l, cx.table.Listed l → ∃ k, table.Listed k ∧
      ∀ i, i ∈ k ↔ i ∈ l ∨ (i = r.index ∧ record.header.state = .live)) :
    Sound { cx with table } := by
  have hnone := inserted.bare_eq_none
  have after : ∀ x, table.bare x = if x = r then some record.core else cx.table.bare x := by
    intro x
    rw [relinks.bare_eq, inserted.bare_eq]
  obtain ⟨l, hl, hlive⟩ := h.listed
  obtain ⟨k, hk, hmem⟩ := listed l hl
  have hr := hl.not_mem_insert inserted
  refine ⟨vacant, h.numbered, ⟨k, hk, ?_⟩, ?_, ?_, h.once, ?_⟩
  · intro x shown hx
    rw [after] at hx
    rw [hmem]
    split at hx
    · rename_i e
      rw [← Option.some.inj hx, e]
      constructor
      · intro hstate
        exact Or.inr ⟨rfl, hstate⟩
      · rintro (hold | ⟨_, hstate⟩)
        · exact absurd hold hr
        · exact hstate
    · have hne : x.index ≠ r.index := by
        intro hi
        obtain ⟨found, hfound, _⟩ := Table.bare_eq_some_iff.mp hx
        have := inserted.vacant
        rw [← hi, (Table.find?_eq_some.mp hfound).2] at this
        cases this
      rw [hlive x shown hx]
      constructor
      · exact Or.inl
      · rintro (hold | ⟨hi, _⟩)
        · exact hold
        · exact absurd hi hne
  · intro x shown hx
    rw [after] at hx
    split at hx
    · rw [← Option.some.inj hx]
      exact ⟨proper.home, proper.static, proper.paired⟩
    · exact h.proper x shown hx
  · intro level hlevel x hx
    obtain ⟨old, hold, hrest⟩ := h.filed level hlevel x hx
    have hne : x ≠ r := by
      rintro rfl
      rw [hnone] at hold
      cases hold
    exact ⟨old, by rw [after, if_neg hne]; exact hold, hrest⟩
  · intro x shown hx hstate
    rw [after] at hx
    split at hx
    · rw [← Option.some.inj hx] at hstate
      exact absurd hstate awake
    · exact h.pending x shown hx hstate

theorem Sound.leave (h : cx.Sound) {level : Level} {scopes : ScopeStack}
    (empty : cx.scopes.active.queue = []) (popped : cx.scopes.pop = .ok (level, scopes)) :
    Sound { cx with scopes } := by
  have hwaiting := ScopeStack.waiting_of_pop popped empty
  refine ⟨h.vacant, h.numbered.pop popped, h.listed, h.proper, ?_, ?_, ?_⟩
  · intro level hlevel
    apply h.filed level
    rw [ScopeStack.stack_eq, (ScopeStack.pop_spec popped).2]
    exact List.mem_cons_of_mem _ hlevel
  · rw [hwaiting]
    exact h.once
  · rw [hwaiting]
    exact h.pending

theorem Sound.enter (h : cx.Sound) : Sound { cx with scopes := cx.scopes.push } := by
  refine ⟨h.vacant, h.numbered.push, h.listed, h.proper, ?_, h.once, h.pending⟩
  intro level hlevel x hx
  rcases List.mem_cons.mp hlevel with rfl | hlevel
  · cases hx
  · exact h.filed level hlevel x hx

theorem Sound.find?_of_live (h : cx.Sound) (hr : r ∈ cx.table.live) :
    ∃ record, cx.table.find? r = some record ∧ record.header.state = .live := by
  obtain ⟨l, hl, hlive⟩ := h.listed
  rw [hl.live_eq] at hr
  obtain ⟨i, hi, rfl⟩ := List.mem_map.mp hr
  obtain ⟨record, hrecord⟩ := hl.linked.recordAt? hi
  have found : cx.table.find? (cx.table.refAt i) = some record := by
    rw [Table.find?_refAt, hrecord]
  exact ⟨record, found, (hlive _ _ (Table.bare_of_find? found)).mpr hi⟩

theorem Sound.bare_of_allocate (h : cx.Sound) {grant : Grant} {payload : Payload} {table : Table}
    (inserted : cx.table.insert grant ⟨.fresh cx.current cx.scopes.activeHome, payload⟩ =
      .ok (r, table)) :
    (table.attach r.index).bare r =
      some ⟨.fresh cx.current cx.scopes.activeHome, payload⟩ := by
  rw [Table.bare_attach, Table.bare, (Table.insert_spec h.vacant inserted).1.find?, if_pos rfl]
  rfl

/-- A record of the running scope may come in. -/
theorem Sound.allocate (h : cx.Sound) {grant : Grant} {payload : Payload} {table : Table}
    (inserted : cx.table.insert grant ⟨.fresh cx.current cx.scopes.activeHome, payload⟩ =
      .ok (r, table)) (paired : payload.Paired) :
    Sound { cx with
      table := table.attach r.index
      counters := { cx.counters with allocated := cx.counters.allocated + 1 } } := by
  obtain ⟨spec, vacant⟩ := Table.insert_spec h.vacant inserted
  have relinks := table.relinks_attach r.index
  refine (h.letIn spec relinks (vacant.relink relinks) ⟨rfl, ?_, paired⟩ ?_ ?_).of_eq rfl rfl
  · constructor
    · intro hstate
      cases hstate
    · intro e
      exact absurd e (Nat.ne_of_gt h.numbered.pos)
  · simp [Header.fresh]
  · intro l hl
    have hr := (spec.recordAt? r.index).trans (if_pos rfl)
    refine ⟨_, (hl.insert spec).attach (hl.not_mem_insert spec) hr, ?_⟩
    intro i
    simp [Header.fresh, or_comm]

theorem Move.sound {cx' : Context} {d : Deed} (h : cx.Sound) (move : Move cx d cx') :
    cx'.Sound := by
  cases move with
  | raise found tracked awake => exact h.setRefcount found awake _
  | lower found tracked count =>
    have live := h.live_of_counted (Table.bare_of_find? found) tracked (by simp [count])
    exact h.setRefcount found (by rw [← Record.state_core, live]; simp) _
  | keep found tracked count =>
    have live := h.live_of_counted (Table.bare_of_find? found) tracked (by simp [count])
    exact h.setRefcount found (by rw [← Record.state_core, live]; simp) _
  | raiseStatic => exact h
  | lowerStatic => exact h
  | @defer r record found tracked last outer =>
    have live := h.live_of_counted (Table.bare_of_find? found) tracked (by simp [last])
    have lowered := h.setRefcount found (by rw [← Record.state_core, live]; simp) 0
    have found' : (cx.table.modifyAt r.index (Record.setRefcount 0)).find? r =
        some (record.setRefcount 0) := Table.find?_modifyAt_self found _
    exact (lowered.postpone found' live rfl outer).of_eq rfl rfl
  | @destroy r record gone table found tracked last inner removed =>
    have live := h.live_of_counted (Table.bare_of_find? found) tracked (by simp [last])
    have lowered := h.setRefcount found (by rw [← Record.state_core, live]; simp) 0
    have found' : (cx.table.modifyAt r.index (Record.setRefcount 0)).find? r =
        some (record.setRefcount 0) := Table.find?_modifyAt_self found _
    exact (lowered.dismiss found' live removed).of_eq rfl rfl
  | drain queue removed => exact h.takeUp queue removed
  | allocate inserted plain => exact h.allocate inserted (Payload.paired_of_plain plain)
  | @allocateContainer grant payload r table inserted paired =>
    obtain ⟨record, found, _⟩ := Table.bare_eq_some_iff.mp (h.bare_of_allocate inserted)
    exact (h.allocate inserted paired).amend found (fun _ => ⟨rfl, rfl⟩) rfl rfl rfl
      (fun _ => rfl) id
  | @allocateStatic grant payload r table inserted paired =>
    obtain ⟨spec, vacant⟩ := Table.insert_spec h.vacant inserted
    refine h.letIn spec (.refl table) vacant ⟨rfl, by simp [Header.forever], paired⟩
      (by simp [Header.forever]) ?_
    intro l hl
    exact ⟨l, hl.insert spec, by simp [Header.forever]⟩
  | hook found free => exact h.amend found (fun _ => ⟨rfl, rfl⟩) rfl rfl rfl (fun _ => rfl) id
  | store found paired =>
    exact h.amend found (fun _ => ⟨rfl, rfl⟩) rfl rfl rfl (fun _ => rfl) fun _ => paired
  | enter => exact h.enter
  | leave empty popped => exact h.leave empty popped
  | bury => exact h.of_eq rfl rfl
  | @sweep r rest gone table first removed =>
    obtain ⟨record, found, live⟩ := h.find?_of_live (r := r) (by rw [first]; simp)
    exact (h.dismiss found live removed).of_eq rfl rfl

theorem Path.sound {cx' : Context} {ds : List Deed} (path : Path cx ds cx') (h : cx.Sound) :
    cx'.Sound :=
  path.invariant (fun h move => move.sound h) h

/-- What every allowed move keeps, a path of allowed moves keeps, and what every such move shows is
shown all along the path. -/
theorem Path.along {cx' : Context} {ds : List Deed} {P : Context → Prop} {Q R : Deed → Prop}
    (keeps : ∀ {a d b}, Move a d b → a.Sound → P a → Q d → P b ∧ R d) (path : Path cx ds cx')
    (sound : cx.Sound) (h : P cx) (allowed : ∀ d ∈ ds, Q d) : P cx' ∧ ∀ d ∈ ds, R d := by
  induction path with
  | refl => exact ⟨h, by simp⟩
  | move first _ ih =>
    obtain ⟨next, shown⟩ := keeps first sound h (allowed _ List.mem_cons_self)
    obtain ⟨last, rest⟩ := ih (first.sound sound) next fun d hd =>
      allowed d (List.mem_cons_of_mem _ hd)
    refine ⟨last, ?_⟩
    intro d hd
    rcases List.mem_cons.mp hd with rfl | hd
    · exact shown
    · exact rest d hd

theorem bare_empty (x : Ref) : Table.empty.bare x = none := by
  simp [Table.bare, Table.find?, Table.empty]

theorem sound_of_empty (hcx : cx.table = .empty) (scopes : cx.scopes = .root) : cx.Sound := by
  have absent : ∀ {x shown} {P : Prop}, cx.table.bare x = some shown → P := by
    intro x shown P hx
    rw [hcx, bare_empty] at hx
    cases hx
  refine ⟨?_, ?_, ⟨[], ?_, fun x shown hx => absent hx⟩, fun x shown hx => absent hx, ?_, ?_,
    fun x shown hx => absent hx⟩
  · rw [hcx]
    exact ⟨List.nodup_nil, by simp [Table.empty]⟩
  · rw [scopes]
    exact ScopeStack.numbered_root
  · rw [hcx]
    exact ⟨List.nodup_nil, rfl, trivial, rfl⟩
  · rw [scopes]
    intro level hlevel x hx
    rw [List.mem_singleton.mp hlevel] at hx
    cases hx
  · rw [scopes]
    exact List.nodup_nil

/-- A new context comes from an empty one by storing the two truth texts. -/
theorem path_new (settings : Settings) : Path { Context.new settings with table := .empty }
    [.allocateStatic ⟨0, 0⟩ (.text "false"), .allocateStatic ⟨1, 0⟩ (.text "true")]
    (Context.new settings) :=
  .move (@Move.allocateStatic _ (Grants.ample 0) _ _ _ rfl trivial)
    (.single (@Move.allocateStatic _ (Grants.ample 0) _ _ _ rfl trivial))

theorem sound_new (settings : Settings) : (Context.new settings).Sound :=
  (path_new settings).sound (sound_of_empty rfl rfl)

end Context

end ScopedHeap
