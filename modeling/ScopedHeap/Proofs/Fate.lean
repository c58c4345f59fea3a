import ScopedHeap.Proofs.Transition

/-!
# What becomes of a record

`Fate` lists what a deed can do to the record under one reference, links aside: it may leave it
alone, change it in one of a few ways, let it in or take it out. Every move does one of these to
every reference (`Move.fate`). Invariants of single records are proved by going through the fates.
-/
namespace ScopedHeap

/-- The record under `x` before and after a deed that is done while scope `current` runs. -/
inductive Fate (current : ScopeId) (x : Ref) : Deed → Option Record → Option Record → Prop
  | same (d : Deed) (content : Option Record) : Fate current x d content content
  | raised {old : Record} (tracked : old.header.creationScope ≠ staticScope)
      (awake : old.header.state ≠ .pending) :
      Fate current x (.raise x) (some old) (some (old.setRefcount (old.header.refcount + 1)))
  | lowered {old : Record} {n : Nat} (tracked : old.header.creationScope ≠ staticScope)
      (count : old.header.refcount = n + 2) :
      Fate current x (.lower x) (some old) (some (old.setRefcount (n + 1)))
  | kept {old : Record} {n : Nat} (tracked : old.header.creationScope ≠ staticScope)
      (count : old.header.refcount = n + 1) :
      Fate current x (.keep x) (some old) (some (old.setRefcount n))
  | deferred {old : Record} (tracked : old.header.creationScope ≠ staticScope)
      (last : old.header.refcount = 1) (outer : old.header.creationScope < current) :
      Fate current x (.defer x) (some old) (some ((old.setRefcount 0).setState .pending))
  | hooked {old : Record} {hook : Hook} (free : old.header.hook = none) :
      Fate current x (.hook x hook) (some old) (some (old.setHook hook))
  | stored {old : Record} {payload : Payload} :
      Fate current x (.store x old.payload payload) (some old) (some (old.setPayload payload))
  | destroyed {old gone : Record} (tracked : old.header.creationScope ≠ staticScope)
      (last : old.header.refcount = 1) (inner : current ≤ old.header.creationScope)
      (shown : gone.core = old.setRefcount 0) :
      Fate current x (.destroy ⟨x, gone⟩) (some old) none
  | drained {old gone : Record} (zero : old.header.refcount = 0)
      (pending : old.header.state = .pending) (home : old.header.creationScope = current)
      (shown : gone.core = old) :
      Fate current x (.drain ⟨x, gone⟩) (some old) none
  | swept {old gone : Record} (live : old.header.state = .live) (shown : gone.core = old) :
      Fate current x (.sweep ⟨x, gone⟩) (some old) none
  | allocated {home : Home} {payload : Payload} (plain : payload.isContainer = false) :
      Fate current x (.allocate x payload) none (some ⟨.fresh current home, payload⟩)
  | furnished {home : Home} {payload : Payload} :
      Fate current x (.allocate x payload) none
        (some (Record.setHook (.releaseSlots payload.kind) ⟨.fresh current home, payload⟩))
  | settled {payload : Payload} :
      Fate current x (.allocateStatic x payload) none (some ⟨.forever, payload⟩)

namespace Context

variable {cx cx' : Context} {d : Deed} {ds : List Deed} {r x : Ref} {record : Record}

theorem fate_modifyAt {f : Record → Record} (found : cx.table.find? r = some record)
    (fate : Fate cx.current r d (cx.table.bare r) (some (f record).core)) (x : Ref) :
    Fate cx.current x d (cx.table.bare x) ((cx.table.modifyAt r.index f).bare x) := by
  rw [Table.bare_modifyAt_of_find? found]
  split
  · rename_i e
    rw [e]
    exact fate
  · exact .same d _

theorem fate_removed {t table : Table} {gone : Record} (spec : Table.Removed t gone r table)
    (others : ∀ x, x ≠ r → t.bare x = cx.table.bare x)
    (fate : Fate cx.current r d (cx.table.bare r) none) (x : Ref) :
    Fate cx.current x d (cx.table.bare x) (table.bare x) := by
  rw [spec.bare_eq]
  split
  · rename_i e
    rw [e]
    exact fate
  · rename_i e
    rw [others x e]
    exact .same d _

theorem fate_inserted {table : Table} (spec : Table.Inserted cx.table record r table)
    (fate : Fate cx.current r d none (some record.core)) (x : Ref) :
    Fate cx.current x d (cx.table.bare x) (table.bare x) := by
  rw [spec.bare_eq]
  split
  · rename_i e
    rw [e, spec.bare_eq_none]
    exact fate
  · exact .same d _

/-- What is taken out when the last reference is given up. -/
theorem Sound.removed_of_last {gone : Record} {table : Table} (h : cx.Sound)
    (found : cx.table.find? r = some record)
    (removed : ((cx.table.modifyAt r.index (Record.setRefcount 0)).detach r.index).remove r =
      .ok (gone, table)) :
    Table.Removed ((cx.table.modifyAt r.index (Record.setRefcount 0)).detach r.index) gone r table ∧
      gone.core = record.core.setRefcount 0 := by
  have vacant := (h.vacant.modifyAt r.index (Record.setRefcount 0)).relink
    (Table.relinks_detach _ r.index)
  have spec := (Table.remove_spec vacant removed).1
  have shown := Table.bare_of_find? spec.found
  rw [Table.bare_detach, Table.bare_modifyAt_of_find? found, if_pos rfl] at shown
  exact ⟨spec, (Option.some.inj shown).symm⟩

theorem Move.fate (move : Move cx d cx') (h : cx.Sound) (x : Ref) :
    Fate cx.current x d (cx.table.bare x) (cx'.table.bare x) := by
  cases move with
  | @raise r record found tracked awake =>
    refine fate_modifyAt found ?_ x
    rw [Table.bare_of_find? found]
    exact .raised tracked awake
  | raiseStatic => exact .same _ _
  | @lower r record n found tracked count =>
    refine fate_modifyAt found ?_ x
    rw [Table.bare_of_find? found]
    exact .lowered tracked count
  | lowerStatic => exact .same _ _
  | @keep r record n found tracked count =>
    refine fate_modifyAt found ?_ x
    rw [Table.bare_of_find? found]
    exact .kept tracked count
  | @defer r record found tracked last outer =>
    obtain ⟨detached, hdetached, hcore⟩ := Table.bare_eq_some_iff.mp
      (((cx.table.modifyAt r.index (Record.setRefcount 0)).bare_detach r.index r).trans
        ((Table.bare_modifyAt_of_find? found _ r).trans (if_pos rfl)))
    dsimp only
    rw [Table.bare_modifyAt_of_find? hdetached, Table.bare_detach,
      Table.bare_modifyAt_of_find? found]
    by_cases e : x = r
    · have after : (detached.setState .pending).core =
          (record.core.setRefcount 0).setState .pending := congrArg (Record.setState .pending) hcore
      rw [if_pos e, e, Table.bare_of_find? found, after]
      exact .deferred tracked last outer
    · rw [if_neg e, if_neg e]
      exact .same _ _
  | @destroy r record gone table found tracked last inner removed =>
    obtain ⟨spec, shown⟩ := h.removed_of_last found removed
    refine fate_removed spec ?_ ?_ x
    · intro x hx
      rw [Table.bare_detach, Table.bare_modifyAt_of_find? found, if_neg hx]
    · rw [Table.bare_of_find? found]
      exact .destroyed tracked last inner shown
  | @drain r rest gone table queue removed =>
    have spec := (Table.remove_spec h.vacant removed).1
    obtain ⟨shown, hshown, pending, home, zero⟩ :=
      h.filed _ List.mem_cons_self r (by rw [queue]; simp)
    refine fate_removed spec (fun _ _ => rfl) ?_ x
    have hgone := Table.bare_of_find? spec.found
    rw [hshown] at hgone
    rw [hshown]
    exact .drained zero pending home (Option.some.inj hgone).symm
  | @allocate grant payload r table inserted plain =>
    dsimp only
    rw [Table.bare_attach]
    exact fate_inserted (Table.insert_spec h.vacant inserted).1 (.allocated plain) x
  | @allocateContainer grant payload r table inserted paired =>
    obtain ⟨attached, found, hcore⟩ := Table.bare_eq_some_iff.mp (h.bare_of_allocate inserted)
    have spec := (Table.insert_spec h.vacant inserted).1
    dsimp only
    rw [Table.bare_modifyAt_of_find? found, Table.bare_attach, spec.bare_eq]
    by_cases e : x = r
    · have after : (attached.setHook (.releaseSlots payload.kind)).core =
          Record.setHook (.releaseSlots payload.kind)
            ⟨.fresh cx.current cx.scopes.activeHome, payload⟩ :=
        congrArg (Record.setHook (.releaseSlots payload.kind)) hcore
      rw [if_pos e, e, spec.bare_eq_none, after]
      exact .furnished
    · rw [if_neg e, if_neg e]
      exact .same _ _
  | allocateStatic inserted paired =>
    exact fate_inserted (Table.insert_spec h.vacant inserted).1 .settled x
  | @hook r record hook found free =>
    refine fate_modifyAt found ?_ x
    rw [Table.bare_of_find? found]
    exact .hooked free
  | @store r record payload found paired =>
    refine fate_modifyAt found ?_ x
    rw [Table.bare_of_find? found]
    exact @Fate.stored _ _ record.core payload
  | enter => exact .same _ _
  | leave => exact .same _ _
  | bury => exact .same _ _
  | @sweep r rest gone table first removed =>
    have vacant := h.vacant.relink (cx.table.relinks_detach r.index)
    have spec := (Table.remove_spec vacant removed).1
    obtain ⟨record, found, live⟩ := h.find?_of_live (r := r) (by rw [first]; simp)
    refine fate_removed spec (fun x _ => cx.table.bare_detach r.index x) ?_ x
    have shown := Table.bare_of_find? spec.found
    rw [Table.bare_detach, Table.bare_of_find? found] at shown
    rw [Table.bare_of_find? found]
    exact .swept live (Option.some.inj shown).symm

end Context

end ScopedHeap
