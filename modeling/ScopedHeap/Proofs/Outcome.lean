import ScopedHeap.Allocation
import ScopedHeap.Proofs.Transition

/-!
# What operations come to

For each basic operation, all the ways it can end, with the conditions of each and the context it
leaves behind. Later proofs go by these cases and never open the operations again.
-/
namespace ScopedHeap

namespace Act

variable {α β : Type}

theorem bind_apply (x : Act α) (f : α → Act β) (w : Workspace) :
    (x >>= f) w = match x w with
      | .ok a v => f a v
      | .error e v => .error e v := by
  show EStateM.bind x f w = _
  unfold EStateM.bind
  cases x w <;> rfl

theorem read_apply (f : Context → Except Error α) (w : Workspace) :
    read f w = match f w.context with
      | .ok a => .ok a w
      | .error e => .error e w := rfl

theorem tryCatch_apply (x : Act α) (f : Error → Act α) (w : Workspace) :
    tryCatch x f w = match x w with
      | .ok a v => .ok a v
      | .error e v => f e v := by
  show EStateM.tryCatch x f w = _
  unfold EStateM.tryCatch
  cases x w <;> rfl

/-- `P` holds of the outcome of `x` and of the context it leaves behind. -/
def Ends (x : Act α) (w : Workspace) (P : Except Error α → Context → Prop) : Prop :=
  match x w with
  | .ok a v => P (.ok a) v.context
  | .error e v => P (.error e) v.context

/-- `P` holds of a value and the context that comes with it, `Q` of the context after an error. -/
def Either (P : α → Context → Prop) (Q : Context → Prop) : Except Error α → Context → Prop
  | .ok a, cx => P a cx
  | .error _, cx => Q cx

variable {x : Act α} {f : α → Act β} {w : Workspace} {P Q : Except Error α → Context → Prop}
  {R : Except Error β → Context → Prop}

theorem Ends.mono (h : x.Ends w P) (imp : ∀ a cx, P a cx → Q a cx) : x.Ends w Q := by
  unfold Ends at *
  split
  · rename_i a v hv
    rw [hv] at h
    exact imp _ _ h
  · rename_i e v hv
    rw [hv] at h
    exact imp _ _ h

theorem Ends.and (h : x.Ends w P) (k : x.Ends w Q) : x.Ends w fun a cx => P a cx ∧ Q a cx := by
  unfold Ends at *
  cases hv : x w with
  | ok a v =>
    rw [hv] at h k
    exact ⟨h, k⟩
  | error e v =>
    rw [hv] at h k
    exact ⟨h, k⟩

theorem ends_of_forall (h : ∀ a cx, P a cx) : x.Ends w P := by
  unfold Ends
  cases x w with
  | ok a v => exact h _ _
  | error e v => exact h _ _

theorem Ends.ne_error (h : x.Ends w fun a _ => ∃ v, a = .ok v) (e : Error) (w' : Workspace) :
    x w ≠ .error e w' := by
  intro fails
  unfold Ends at h
  rw [fails] at h
  obtain ⟨v, hv⟩ := h
  cases hv

theorem Ends.bind (h : x.Ends w P) (failed : ∀ e cx, P (.error e) cx → R (.error e) cx)
    (next : ∀ a v, P (.ok a) v.context → (f a).Ends v R) : (x >>= f).Ends w R := by
  unfold Ends at *
  rw [bind_apply]
  split
  · rename_i b v hv
    split at hv
    · rename_i a u hu
      rw [hu] at h
      have := next a u h
      rw [hv] at this
      exact this
    · cases hv
  · rename_i e v hv
    split at hv
    · rename_i a u hu
      rw [hu] at h
      have := next a u h
      rw [hv] at this
      exact this
    · rename_i e' u hu
      rw [hu] at h
      cases hv
      exact failed _ _ h

theorem Ends.map (h : x.Ends w P) (g : α → β) (failed : ∀ e cx, P (.error e) cx → R (.error e) cx)
    (passed : ∀ a cx, P (.ok a) cx → R (.ok (g a)) cx) : (x >>= fun a => pure (g a)).Ends w R :=
  h.bind failed fun a v => passed a v.context

theorem Ends.catching {f : Error → Act α} (h : x.Ends w P)
    (passed : ∀ a cx, P (.ok a) cx → Q (.ok a) cx)
    (caught : ∀ e v, P (.error e) v.context → (f e).Ends v Q) : (tryCatch x f).Ends w Q := by
  unfold Ends at *
  rw [tryCatch_apply]
  cases hv : x w with
  | ok a v =>
    rw [hv] at h
    exact passed _ _ h
  | error e v =>
    rw [hv] at h
    exact caught e v h

theorem ends_pure {a : α} (h : P (.ok a) w.context) : (pure a : Act α).Ends w P := h

theorem ends_throw {e : Error} (h : P (.error e) w.context) : (throw e : Act α).Ends w P := h

theorem ends_throw_bind {e : Error} (h : R (.error e) w.context) :
    ((throw e : Act α) >>= f).Ends w R := h

theorem ends_context_bind {f : Context → Act β} (h : (f w.context).Ends w R) :
    (context >>= f).Ends w R := h

theorem ends_nextGrant_bind {f : Grant → Act β}
    (h : (f (w.grants 0)).Ends { w with grants := w.grants.rest } R) :
    (nextGrant >>= f).Ends w R := h

theorem ends_notify_bind {f : Unit → Act β} {n : Notice}
    (h : (f ()).Ends { w with journal := n :: w.journal } R) : (notify n >>= f).Ends w R := h

theorem ends_notify {P : Except Error Unit → Context → Prop} {n : Notice}
    (h : P (.ok ()) w.context) : (notify n).Ends w P := h

theorem ends_modifyTable_bind {f : Unit → Act β} {g : Table → Table}
    (h : (f ()).Ends { w with context := { w.context with table := g w.context.table } } R) :
    (modifyTable g >>= f).Ends w R := h

theorem ends_modifyRecord_bind {f : Unit → Act β} {r : Ref} {g : Record → Record}
    (h : (f ()).Ends { w with
      context := { w.context with table := w.context.table.modifyAt r.index g } } R) :
    (modifyRecord r g >>= f).Ends w R := h

theorem ends_modifyRecord {P : Except Error Unit → Context → Prop} {r : Ref} {g : Record → Record}
    (h : P (.ok ()) { w.context with table := w.context.table.modifyAt r.index g }) :
    (modifyRecord r g).Ends w P := h

theorem ends_modifyCounters_bind {f : Unit → Act β} {g : Counters → Counters}
    (h : (f ()).Ends { w with
      context := { w.context with counters := g w.context.counters } } R) :
    (modifyCounters g >>= f).Ends w R := h

theorem ends_read_bind {g : Context → Except Error α}
    (failed : ∀ e, g w.context = .error e → R (.error e) w.context)
    (passed : ∀ a, g w.context = .ok a → (f a).Ends w R) : (read g >>= f).Ends w R := by
  unfold Ends
  rw [bind_apply, read_apply]
  cases hg : g w.context with
  | ok a => exact passed a hg
  | error e => exact failed e hg

theorem ends_onTable_bind {g : Table → Except Error (α × Table)}
    (failed : ∀ e, g w.context.table = .error e → R (.error e) w.context)
    (passed : ∀ a table, g w.context.table = .ok (a, table) →
      (f a).Ends { w with context := { w.context with table } } R) :
    (onTable g >>= f).Ends w R := by
  unfold Ends
  rw [bind_apply, onTable]
  cases hg : g w.context.table with
  | ok p => exact passed p.1 p.2 hg
  | error e => exact failed e hg

theorem ends_onTable {g : Table → Except Error (α × Table)}
    (failed : ∀ e, g w.context.table = .error e → P (.error e) w.context)
    (passed : ∀ a table, g w.context.table = .ok (a, table) →
      P (.ok a) { w.context with table }) : (onTable g).Ends w P := by
  unfold Ends onTable
  cases hg : g w.context.table with
  | ok p => exact passed p.1 p.2 hg
  | error e => exact failed e hg

theorem ends_onScopes_bind {g : ScopeStack → Except Error (α × ScopeStack)}
    (failed : ∀ e, g w.context.scopes = .error e → R (.error e) w.context)
    (passed : ∀ a scopes, g w.context.scopes = .ok (a, scopes) →
      (f a).Ends { w with context := { w.context with scopes } } R) :
    (onScopes g >>= f).Ends w R := by
  unfold Ends
  rw [bind_apply, onScopes]
  cases hg : g w.context.scopes with
  | ok p => exact passed p.1 p.2 hg
  | error e => exact failed e hg

theorem ends_header_bind {f : Header → Act β} {r : Ref}
    (absent : w.context.table.find? r = none → R (.error (Table.dangling r)) w.context)
    (present : ∀ record, w.context.table.find? r = some record →
      (f record.header).Ends w R) : (read (·.header r) >>= f).Ends w R := by
  have missing : w.context.table.find? r = none →
      w.context.header r = .error (Table.dangling r) := by
    intro hr
    rw [Context.header, Context.find, Table.find, hr]
    rfl
  have there : ∀ record, w.context.table.find? r = some record →
      w.context.header r = .ok record.header := by
    intro record hr
    rw [Context.header, Context.find, Table.find, hr]
    rfl
  apply ends_read_bind
  · intro e he
    cases hr : w.context.table.find? r with
    | none =>
      rw [missing hr] at he
      cases he
      exact absent hr
    | some record =>
      rw [there record hr] at he
      cases he
  · intro h hh
    cases hr : w.context.table.find? r with
    | none =>
      rw [missing hr] at hh
      cases hh
    | some record =>
      rw [there record hr] at hh
      cases hh
      exact present record hr

end Act

namespace Context

/-- The ways an increment can end. -/
inductive Increment (cx : Context) (family : Family) (r : Ref) :
    Except Error Unit → Context → Prop
  | dangling (absent : cx.table.find? r = none) :
      Increment cx family r (.error (Table.dangling r)) cx
  | ignored {record : Record} (found : cx.table.find? r = some record)
      (untracked : family.tracks record.header cx.current = false) :
      Increment cx family r (.ok ()) cx
  | refused {record : Record} (found : cx.table.find? r = some record)
      (tracked : family.tracks record.header cx.current = true)
      (pending : record.header.state = .pending) :
      Increment cx family r (.error (.pendingResurrection r.index)) cx
  | raised {record : Record} (found : cx.table.find? r = some record)
      (tracked : family.tracks record.header cx.current = true)
      (awake : record.header.state ≠ .pending) :
      Increment cx family r (.ok ()) { cx with
        table := cx.table.modifyAt r.index (Record.setRefcount (record.header.refcount + 1)) }

/-- The ways a decrement can end. -/
inductive Decrement (cx : Context) (family : Family) (keep : Bool) (r : Ref) :
    Except Error (Option Doomed) → Context → Prop
  | dangling (absent : cx.table.find? r = none) :
      Decrement cx family keep r (.error (Table.dangling r)) cx
  | ignored {record : Record} (found : cx.table.find? r = some record)
      (untracked : family.tracks record.header cx.current = false) :
      Decrement cx family keep r (.ok none) cx
  | underflow {record : Record} (found : cx.table.find? r = some record)
      (tracked : family.tracks record.header cx.current = true)
      (zero : record.header.refcount = 0) :
      Decrement cx family keep r (.error (.refcountUnderflow r.index)) cx
  | lowered {record : Record} {n : Nat} (found : cx.table.find? r = some record)
      (tracked : family.tracks record.header cx.current = true)
      (count : record.header.refcount = n + 1) (stays : keep = true ∨ n ≠ 0) :
      Decrement cx family keep r (.ok none) { cx with
        table := cx.table.modifyAt r.index (Record.setRefcount n) }
  | destroyed {record gone : Record} {table : Table} (found : cx.table.find? r = some record)
      (tracked : family.tracks record.header cx.current = true)
      (last : record.header.refcount = 1) (gives : keep = false)
      (inner : cx.current ≤ record.header.creationScope)
      (removed : ((cx.table.modifyAt r.index (Record.setRefcount 0)).detach r.index).remove r =
        .ok (gone, table)) :
      Decrement cx family keep r (.ok (some ⟨r, gone⟩)) { cx with table }
  | deferred {record : Record} (found : cx.table.find? r = some record)
      (tracked : family.tracks record.header cx.current = true)
      (last : record.header.refcount = 1) (gives : keep = false)
      (outer : record.header.creationScope < cx.current) :
      Decrement cx family keep r (.ok none) { cx with
        table := ((cx.table.modifyAt r.index (Record.setRefcount 0)).detach r.index).modifyAt
          r.index (Record.setState .pending)
        scopes := (cx.scopes.defer record.header.home r).2
        counters := { cx.counters with deferred := cx.counters.deferred + 1 } }

end Context

theorem Family.creationScope_ne_of_tracks {family : Family} {h : Header} {current : ScopeId}
    (tracked : family.tracks h current = true) : h.creationScope ≠ staticScope := by
  cases family <;> simp_all [Family.tracks]

namespace Act

open Context

variable {w : Workspace} {r : Ref}

theorem ends_increment (family : Family) (r : Ref) (w : Workspace) :
    (increment family r).Ends w (w.context.Increment family r) := by
  unfold increment
  apply ends_context_bind
  apply ends_header_bind .dangling
  intro record found
  dsimp only
  split
  · rename_i tracked
    split
    · rename_i pending
      exact ends_throw_bind (.refused found tracked pending)
    · rename_i awake
      apply ends_modifyRecord_bind
      exact ends_notify (.raised found tracked awake)
  · rename_i untracked
    exact ends_pure (.ignored found (by simpa using untracked))

theorem unearth_apply {gone : Record} {table : Table}
    (removed : w.context.table.remove r = .ok (gone, table)) :
    unearth r w = .ok ⟨r, gone⟩ { w with context := { w.context with table } } := by
  unfold unearth
  rw [bind_apply, onTable]
  simp only [removed]
  rfl

theorem ends_unearth_bind {β : Type} {f : Doomed → Act β} {R : Except Error β → Context → Prop}
    {gone : Record} {table : Table} (removed : w.context.table.remove r = .ok (gone, table))
    (h : (f ⟨r, gone⟩).Ends { w with context := { w.context with table } } R) :
    (unearth r >>= f).Ends w R := by
  unfold Ends
  rw [bind_apply, unearth_apply removed]
  exact h

theorem ends_release {record : Record} (found : w.context.table.find? r = some record)
    {P : Except Error (Option Doomed) → Context → Prop}
    (destroyed : ∀ gone table, w.context.current ≤ record.header.creationScope →
      (w.context.table.detach r.index).remove r = .ok (gone, table) →
      P (.ok (some ⟨r, gone⟩)) { w.context with table })
    (deferred : record.header.creationScope < w.context.current →
      P (.ok none) { w.context with
        table := (w.context.table.detach r.index).modifyAt r.index (Record.setState .pending)
        scopes := (w.context.scopes.defer record.header.home r).2
        counters := { w.context.counters with deferred := w.context.counters.deferred + 1 } }) :
    (release r).Ends w P := by
  have shown := (w.context.table.bare_detach r.index r).trans (Table.bare_of_find? found)
  obtain ⟨detached, hdetached, hcore⟩ := Table.bare_eq_some_iff.mp shown
  have scope : detached.header.creationScope = record.header.creationScope :=
    congrArg (fun s => s.header.creationScope) hcore
  have home : detached.header.home = record.header.home := congrArg (fun s => s.header.home) hcore
  unfold release
  apply ends_modifyTable_bind
  apply ends_context_bind
  apply ends_header_bind
  · intro absent
    rw [hdetached] at absent
    cases absent
  · intro other hother
    obtain rfl := Option.some.inj (hdetached.symm.trans hother)
    dsimp only
    rw [scope, home]
    split
    · rename_i inner
      obtain ⟨table, removed⟩ := Table.remove_eq_ok hdetached
      apply ends_unearth_bind removed
      exact ends_pure (destroyed _ _ inner removed)
    · rename_i outer
      apply ends_modifyRecord_bind
      apply ends_onScopes_bind
      · intro e he
        cases he
      · intro atHome scopes hscopes
        simp only [Except.ok.injEq] at hscopes
        have hscopes : scopes = (w.context.scopes.defer record.header.home r).2 := by rw [hscopes]
        rw [hscopes]
        split
        · apply ends_notify_bind
          apply ends_modifyCounters_bind
          apply ends_notify_bind
          exact ends_pure (deferred (Nat.lt_of_not_le outer))
        · apply ends_modifyCounters_bind
          apply ends_notify_bind
          exact ends_pure (deferred (Nat.lt_of_not_le outer))

theorem ends_decrement (family : Family) (keep : Bool) (r : Ref) (w : Workspace) :
    (decrement family keep r).Ends w (w.context.Decrement family keep r) := by
  unfold decrement
  apply ends_context_bind
  apply ends_header_bind .dangling
  intro record found
  dsimp only
  split
  · rename_i untracked
    exact ends_pure (.ignored found (by simpa using untracked))
  · rename_i tracked
    have tracked : family.tracks record.header w.context.current = true := by simpa using tracked
    split
    · rename_i zero
      exact ends_throw_bind (.underflow found tracked zero)
    · rename_i counted
      obtain ⟨n, count⟩ := Nat.exists_eq_succ_of_ne_zero counted
      simp only [count, Nat.succ_sub_one]
      apply ends_modifyRecord_bind
      apply ends_notify_bind
      split
      · rename_i gone
        simp only [Bool.and_eq_true, decide_eq_true_eq, Bool.not_eq_true'] at gone
        obtain ⟨rfl, gives⟩ := gone
        have found' : (w.context.table.modifyAt r.index (Record.setRefcount 0)).find? r =
            some (record.setRefcount 0) := Table.find?_modifyAt_self found _
        refine ends_release found' ?_ ?_
        · intro gone table inner removed
          exact .destroyed found tracked count gives inner removed
        · intro outer
          exact @Decrement.deferred _ _ _ _ record found tracked count gives outer
      · rename_i stays
        refine ends_pure (.lowered found tracked count ?_)
        simp only [Bool.and_eq_true, decide_eq_true_eq, Bool.not_eq_true', not_and_or] at stays
        rcases stays with stays | stays
        · exact Or.inr stays
        · exact Or.inl (by simpa using stays)

theorem ends_allocRecord {payload : Payload} {P : Except Error Ref → Context → Prop}
    (failed : ∀ e, P (.error e) w.context)
    (stored : ∀ grant r table, w.context.table.insert grant
      ⟨.fresh w.context.current w.context.scopes.activeHome, payload⟩ = .ok (r, table) →
      P (.ok r) { w.context with
        table := table.attach r.index
        counters := { w.context.counters with allocated := w.context.counters.allocated + 1 } }) :
    (allocRecord payload).Ends w P := by
  unfold allocRecord
  apply ends_context_bind
  apply ends_nextGrant_bind
  apply ends_onTable_bind
  · intro e _
    exact failed e
  · intro r table inserted
    apply ends_modifyTable_bind
    apply ends_modifyCounters_bind
    apply ends_notify_bind
    exact ends_pure (stored _ r table inserted)

/-- A record over a buffer comes to nothing if either of the two is refused. -/
theorem ends_allocBuffered {bytes : Nat} {payload : Payload} {P : Except Error Ref → Context → Prop}
    (failed : ∀ e, P (.error e) w.context)
    (granted : ∀ grants, (allocRecord payload).Ends { w with grants } P) :
    (allocBuffered bytes payload).Ends w P := by
  unfold allocBuffered
  apply ends_nextGrant_bind
  split
  · exact granted _
  · exact ends_throw (failed _)

theorem ends_allocate {size : Nat} {zeroed : Bool} {P : Except Error Ref → Context → Prop}
    (failed : ∀ e, P (.error e) w.context)
    (granted : ∀ storage grants, (allocRecord (.raw storage)).Ends { w with grants } P) :
    (allocate size zeroed).Ends w P := by
  unfold allocate
  dsimp only
  by_cases small : size < headerSize
  · rw [if_pos small]
    exact ends_throw_bind (failed _)
  · rw [if_neg small]
    apply ends_nextGrant_bind
    exact ends_read_bind (fun e _ => failed e) fun storage _ => granted storage _

theorem ends_allocateStatic {payload : Payload} {P : Except Error Ref → Context → Prop}
    (failed : ∀ e, P (.error e) w.context)
    (stored : ∀ grant r table, w.context.table.insert grant ⟨.forever, payload⟩ = .ok (r, table) →
      P (.ok r) { w.context with table }) : (allocateStatic payload).Ends w P := by
  unfold allocateStatic
  apply ends_nextGrant_bind
  apply ends_onTable
  · intro e _
    exact failed e
  · exact stored _

theorem ends_installHook {hook : Hook} {P : Except Error Unit → Context → Prop}
    (failed : ∀ e, (∀ record, w.context.table.find? r = some record →
      record.header.hook.isSome = true) → P (.error e) w.context)
    (installed : ∀ record, w.context.table.find? r = some record → record.header.hook = none →
      P (.ok ()) { w.context with
        table := w.context.table.modifyAt r.index (Record.setHook hook) }) :
    (installHook r hook).Ends w P := by
  unfold installHook
  apply ends_header_bind
  · intro absent
    apply failed
    intro record found
    rw [absent] at found
    cases found
  · intro record found
    split
    · rename_i occupied
      apply ends_throw_bind
      apply failed
      intro other hother
      rw [found] at hother
      rwa [← Option.some.inj hother]
    · rename_i free
      apply ends_modifyRecord
      exact installed record found (by simpa using free)

theorem ends_updatePayload {α : Type} {f : Payload → Except Error (α × Payload)}
    {P : Except Error α → Context → Prop}
    (failed : ∀ e, (∀ record a payload, w.context.table.find? r = some record →
      f record.payload ≠ .ok (a, payload)) → P (.error e) w.context)
    (stored : ∀ record a payload, w.context.table.find? r = some record →
      f record.payload = .ok (a, payload) →
      P (.ok a) { w.context with
        table := w.context.table.modifyAt r.index (Record.setPayload payload) }) :
    (updatePayload r f).Ends w P := by
  apply ends_onTable
  · intro e he
    apply failed
    intro record a payload found passed
    simp only [Table.updatePayload, Table.find_eq_ok_iff.mpr found, passed, Bind.bind,
      Except.bind] at he
    cases he
  · intro a table h
    simp only [Table.updatePayload, Bind.bind, Except.bind] at h
    split at h
    · cases h
    · rename_i record hrecord
      split at h
      · cases h
      · rename_i p passed
        cases h
        exact stored record p.1 p.2 (Table.find_eq_ok_iff.mp hrecord) passed

theorem ends_pushScope {P : Except Error ScopeId → Context → Prop}
    (h : P (.ok w.context.scopes.push.current) { w.context with scopes := w.context.scopes.push }) :
    pushScope.Ends w P := h

theorem ends_exitScope {scope : ScopeId} {drained : Nat} {P : Except Error Unit → Context → Prop}
    (failed : ∀ e, w.context.scopes.outer = [] → P (.error e) w.context)
    (left : ∀ level scopes, w.context.scopes.pop = .ok (level, scopes) →
      P (.ok ()) { w.context with scopes }) : (exitScope scope drained).Ends w P := by
  have leave : ∀ v : Workspace, v.context = w.context → (do
      let _ ← onScopes ScopeStack.pop
      notify (.scopeExited scope drained)).Ends v P := by
    intro v hv
    apply ends_onScopes_bind
    · intro e he
      rw [hv] at he ⊢
      apply failed
      unfold ScopeStack.pop at he
      split at he
      · assumption
      · cases he
    · intro level scopes popped
      rw [hv] at popped
      apply ends_notify
      dsimp only
      rw [hv]
      exact left level scopes popped
  unfold exitScope
  apply ends_context_bind
  split
  · unfold auditScope
    refine Ends.bind (P := fun a cx => a = .ok () ∧ cx = w.context) ?_ ?_ ?_
    · apply ends_context_bind
      dsimp only
      split
      · exact ends_notify ⟨rfl, rfl⟩
      · exact ends_notify ⟨rfl, rfl⟩
    · intro e cx h
      cases h.1
    · intro _ v hv
      exact leave v hv.2
  · exact leave w rfl

/-- In a sound context, what is taken off a queue is always in the table. -/
theorem ends_unearthNext (sound : w.context.Sound)
    {P : Except Error (Option Doomed) → Context → Prop}
    (empty : w.context.scopes.active.queue = [] → P (.ok none) w.context)
    (next : ∀ r rest gone table, w.context.scopes.active.queue = r :: rest →
      w.context.table.remove r = .ok (gone, table) →
      P (.ok (some ⟨r, gone⟩)) { w.context with
        table
        scopes := { w.context.scopes with
          active := { w.context.scopes.active with queue := rest } } }) :
    unearthNext.Ends w P := by
  unfold unearthNext
  apply ends_onScopes_bind
  · intro e he
    cases he
  · intro a scopes h
    simp only [Except.ok.injEq] at h
    cases hq : w.context.scopes.active.queue with
    | nil =>
      have hnext : w.context.scopes.nextPending = (none, w.context.scopes) := by
        unfold ScopeStack.nextPending
        rw [hq]
      rw [hnext, Prod.mk.injEq] at h
      obtain ⟨rfl, rfl⟩ := h
      exact ends_pure (empty hq)
    | cons r rest =>
      rw [ScopeStack.nextPending_cons hq, Prod.mk.injEq] at h
      obtain ⟨rfl, rfl⟩ := h
      have hmem : r ∈ w.context.scopes.active.queue := by rw [hq]; exact List.mem_cons_self
      obtain ⟨shown, hshown, _⟩ := sound.filed _ List.mem_cons_self r hmem
      obtain ⟨record, found, _⟩ := Table.bare_eq_some_iff.mp hshown
      obtain ⟨table, removed⟩ := Table.remove_eq_ok found
      dsimp only
      apply ends_unearth_bind (w := { w with context := { w.context with
        scopes := { w.context.scopes with
          active := { w.context.scopes.active with queue := rest } } } }) removed
      exact ends_pure (next r rest record table hq removed)

end Act

end ScopedHeap
