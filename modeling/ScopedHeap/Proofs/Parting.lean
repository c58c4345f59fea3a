import ScopedHeap.Proofs.Destruction

/-!
# The record that is taken out

A record that is doomed is the one that its reference found before the step, without its count and
its links. Its payload is the one it had, unless the step first changed that very payload: a
container that refers to itself may lose its last reference when one of its own slots is replaced
(`Update.Rewrites`).
-/
namespace ScopedHeap

open Context

def Record.content (r : Record) : Record := r.core.setRefcount 0

theorem Record.content_raised (r : Record) (n : Nat) : (r.raised n).content = r.content := by
  unfold raised
  split
  · rfl
  · rfl

theorem Record.payload_eq {a b : Record} (h : a.content = b.content) : a.payload = b.payload := by
  have payload := congrArg Record.payload h
  exact payload

/-- What a change makes of the payload of a container before it gives up the slot that it has taken
out. -/
inductive Update.Rewrites (cx : Context) (x : Ref) : Change → Payload → Payload → Prop
  | pop {l k : SlotList} {v : Slot} (popped : l.pop = .ok (v, k)) :
      Rewrites cx x (.listPop x) (.list l) (.list k)
  | set {l : SlotList} {index : Int} {i : Nat} {v : Slot} (position : l.position index = .ok i) :
      Rewrites cx x (.listSet x index v) (.list l) (.list (l.replace i v))
  | insert {d : SlotDict} {key v : Slot} {i : Nat}
      (found : cx.table.search d.keys key = .ok (some i)) :
      Rewrites cx x (.dictInsert x key v) (.dict d)
        (.dict { d with values := d.values.replace i v })

/-- The doomed record was there before the change, with the payload it has now or with one that the
change has made into it. -/
def Update.Parted (c : Change) (cx : Context) (d : Doomed) : Prop :=
  ∃ old, cx.table.find? d.ref = some old ∧
    d.record.content = (old.setPayload d.record.payload).content ∧
    (d.record.payload = old.payload ∨ Rewrites cx d.ref c old.payload d.record.payload)

theorem Table.find?_of_remove {t u : Table} {r : Ref} {gone : Record}
    (h : t.remove r = .ok (gone, u)) : t.find? r = some gone := by
  unfold remove at h
  split at h
  · rename_i record found
    cases h
    exact found
  · cases h

namespace Act

variable {α β : Type} {x : Act α} {f : α → Act β} {doomed : α → Option Doomed} {P : Doomed → Prop}
  {w v u : Workspace} {cx : Context} {c : Change}

/-- Whatever the operation dooms, `P` holds of it. -/
def Parts (x : Act α) (doomed : α → Option Doomed) (P : Doomed → Prop) (w : Workspace) : Prop :=
  x.Ends w fun a _ => ∀ v d, a = .ok v → doomed v = some d → P d

theorem parts_pure {a : α} (none : doomed a = none) : (pure a : Act α).Parts doomed P w := by
  apply ends_pure
  intro v d hv hd
  cases hv
  rw [none] at hd
  cases hd

theorem Parts.mono {Q : Doomed → Prop} (h : x.Parts doomed P w) (imp : ∀ d, P d → Q d) :
    x.Parts doomed Q w := by
  apply Ends.mono h
  intro a _ parts v d hv hd
  exact imp d (parts v d hv hd)

theorem Parts.map {doomed' : β → Option Doomed} (h : x.Parts doomed P w) (g : α → β)
    (same : ∀ a, doomed' (g a) = doomed a) : (x >>= fun a => pure (g a)).Parts doomed' P w := by
  refine Ends.map h g ?_ ?_
  · intro e _ _ v d hv
    cases hv
  · intro a _ parts v d hv hd
    cases hv
    rw [same] at hd
    exact parts a d rfl hd

theorem parts_map_of_none (x : Act α) (g : α → β) {doomed : β → Option Doomed}
    (none : ∀ a, doomed (g a) = none) : (x >>= fun a => pure (g a)).Parts doomed P w := by
  have silent : x.Parts (fun _ => Option.none) P w := by
    unfold Parts Ends
    cases x w with
    | ok a v =>
      intro v d _ hd
      cases hd
    | error e v =>
      intro v d hv
      cases hv
  exact silent.map g none

theorem Parts.of_doomed? (parts : x.Parts doomed P w) {d : Doomed}
    (hd : x.doomed? doomed w = some d) : P d := by
  unfold doomed? at hd
  unfold Parts Ends at parts
  cases ran : x w with
  | ok a v =>
    rw [ran] at hd parts
    exact parts a d rfl hd
  | error e v =>
    rw [ran] at hd
    cases hd

/-- What is doomed has been there, count and links aside. -/
def Spared (cx : Context) (d : Doomed) : Prop :=
  ∃ old, cx.table.find? d.ref = some old ∧ d.record.content = old.content

theorem Spared.parted {d : Doomed} (h : Spared cx d) (c : Change) : c.Parted cx d := by
  obtain ⟨old, found, same⟩ := h
  have payload := Record.payload_eq same
  refine ⟨old, found, ?_, Or.inl payload⟩
  rw [payload]
  exact same

theorem parts_decrement (family : Family) (keep : Bool) (r : Ref) (w : Workspace) :
    (decrement family keep r).Parts id (Spared w.context) w := by
  apply (ends_decrement family keep r w).mono
  intro a cx h v d hv hd
  cases h with
  | dangling | underflow => cases hv
  | ignored | lowered | deferred =>
    cases hv
    cases hd
  | @destroyed record gone table found tracked last gives inner removed =>
    cases hv
    cases hd
    have shown := Table.bare_of_find? (Table.find?_of_remove removed)
    rw [Table.bare_detach, Table.bare_modifyAt_of_find? found, if_pos rfl] at shown
    exact ⟨record, found, (congrArg (Record.setRefcount 0) (Option.some.inj shown)).symm⟩

theorem parts_dropSlot (s : Slot) (w : Workspace) :
    (dropSlot s).Parts id (Spared w.context) w := by
  unfold dropSlot
  cases s.ref? with
  | none => exact parts_pure rfl
  | some r => exact parts_decrement .heap false r w

theorem parts_unearth (r : Ref) (w : Workspace) :
    (unearth r).Parts some (Spared w.context) w := by
  unfold unearth
  apply ends_onTable_bind
  · intro e _ v d hv
    cases hv
  · intro gone table removed
    apply ends_pure
    intro v d hv hd
    cases hv
    cases hd
    exact ⟨gone, Table.find?_of_remove removed, rfl⟩

theorem parts_unearthNext (w : Workspace) : unearthNext.Parts id (Spared w.context) w := by
  unfold unearthNext
  apply ends_onScopes_bind
  · intro e he
    cases he
  · intro next scopes hnext
    cases next with
    | none => exact parts_pure rfl
    | some r => exact (parts_unearth r _).map some fun _ => rfl

/-- A slot is given up after its container has been rewritten. What was there before the counts of
the new slots was there all along. -/
theorem parts_dropSlot_stored {r : Ref} {record : Record} {q : Payload} {s : Slot}
    (like : ∀ x new, v.context.table.find? x = some new →
      ∃ old, cx.table.find? x = some old ∧ new.content = old.content)
    (found : v.context.table.find? r = some record)
    (stored : u.context = { v.context with
      table := v.context.table.modifyAt r.index (Record.setPayload q) })
    (rewrites : Update.Rewrites cx r c record.payload q) :
    (dropSlot s).Parts id (c.Parted cx) u := by
  apply (parts_dropSlot s u).mono
  rintro d ⟨new, hnew, same⟩
  rw [stored, Table.find?_modifyAt_of_find? found] at hnew
  by_cases e : d.ref = r
  · rw [if_pos e] at hnew
    obtain rfl := Option.some.inj hnew
    obtain ⟨old, hold, before⟩ := like r record found
    have payload : d.record.payload = q := Record.payload_eq same
    refine ⟨old, by rw [e]; exact hold, ?_, Or.inr ?_⟩
    · rw [same, payload]
      exact congrArg (Record.setPayload q) before
    · rw [e, payload, ← Record.payload_eq before]
      exact rewrites
  · rw [if_neg e] at hnew
    obtain ⟨old, hold, before⟩ := like d.ref new hnew
    exact Spared.parted ⟨old, hold, same.trans before⟩ c

theorem content_raiseAll {refs : List Ref} (can : ∀ r ∈ refs, w.context.table.CanRaise r)
    (held : v.context = { w.context with table := w.context.table.raiseAll refs }) :
    ∀ x new, v.context.table.find? x = some new →
      ∃ old, w.context.table.find? x = some old ∧ new.content = old.content := by
  intro x new hnew
  rw [held, Table.find?_raiseAll fun r hr => (can r hr).isSome] at hnew
  obtain ⟨old, hold, rfl⟩ := Option.map_eq_some_iff.mp hnew
  exact ⟨old, hold, old.content_raised _⟩

theorem parts_listPop (r : Ref) (w : Workspace) :
    (listPop r).Parts (·.2) (Update.Parted (.listPop r) w.context) w := by
  unfold listPop
  apply ends_updatePayload_bind
  · intro e _ v d hv
    cases hv
  · intro record s q v found passed stored
    obtain ⟨l, k, hl, popped, rfl⟩ := onList_eq_ok.mp passed
    have rewrites : Update.Rewrites w.context r (.listPop r) record.payload (.list k) := by
      rw [hl]
      exact .pop popped
    exact (parts_dropSlot_stored (fun x new h => ⟨new, h, rfl⟩) found stored rewrites).map _
      fun _ => rfl

theorem parts_replace {r : Ref} {s : Slot} {F : Payload → Except Error (Option Slot × Payload)}
    (rewrites : ∀ record a q, w.context.table.find? r = some record →
      F record.payload = .ok (a, q) → Update.Rewrites w.context r c record.payload q) :
    (retain [s] >>= fun _ => updatePayload r F >>= fun old =>
      old.elim (pure none) dropSlot).Parts id (c.Parted w.context) w := by
  apply ends_retain_bind
  · intro e v d hv
    cases hv
  · intro v can held
    have like := content_raiseAll can held
    apply ends_updatePayload_bind
    · intro e _ v d hv
      cases hv
    · intro record a q u found passed stored
      obtain ⟨old, hold, same⟩ := like r record found
      have payload := Record.payload_eq same
      rw [payload] at passed
      have rewritten := rewrites old a q hold passed
      rw [← payload] at rewritten
      cases a with
      | none => exact parts_pure rfl
      | some s => exact parts_dropSlot_stored like found stored rewritten

theorem parts_listSet (r : Ref) (index : Int) (s : Slot) (w : Workspace) :
    (listSet r index s).Parts id (Update.Parted (.listSet r index s) w.context) w := by
  unfold listSet
  apply ends_read_bind
  · intro e _ v d hv
    cases hv
  · intro i hi
    obtain ⟨l, hl, hi⟩ := bind_eq_ok.mp hi
    obtain ⟨_, _, position⟩ := bind_eq_ok.mp hi
    obtain ⟨record, found, payload⟩ := Context.list_eq_ok hl
    apply parts_replace
    intro other a q hother passed
    obtain rfl := Option.some.inj (found.symm.trans hother)
    obtain ⟨l', k, hl', replaced, rfl⟩ := onList_eq_ok.mp passed
    rw [payload] at hl' ⊢
    cases hl'
    cases replaced
    exact .set position

theorem parts_dictInsert (r : Ref) (key s : Slot) (w : Workspace) :
    (dictInsert r key s).Parts id (Update.Parted (.dictInsert r key s) w.context) w := by
  unfold dictInsert
  apply ends_read_bind
  · intro e _ v d hv
    cases hv
  · intro place hplace
    obtain ⟨dict, hdict, hplace⟩ := bind_eq_ok.mp hplace
    obtain ⟨_, _, search⟩ := bind_eq_ok.mp hplace
    obtain ⟨record, found, payload⟩ := Context.dict_eq_ok hdict
    cases place with
    | none => exact parts_map_of_none (dictAppend r key s) (fun _ => none) fun _ => rfl
    | some i =>
      apply parts_replace
      intro other a q hother passed
      obtain rfl := Option.some.inj (found.symm.trans hother)
      obtain ⟨dict', k, hdict', replaced, rfl⟩ := onDict_eq_ok.mp passed
      rw [payload] at hdict' ⊢
      cases hdict'
      cases replaced
      exact .insert search

theorem parts_change (c : Change) (w : Workspace) :
    (change c).Parts Effect.doomed (c.Parted w.context) w := by
  cases c with
  | allocate | allocateStatic | staticFrom | setPayload | swapPayloads | writeRaw | pushScope
  | newStr | newText | newList | listPush | newDict | newSet =>
    exact parts_map_of_none _ _ fun _ => rfl
  | increment family target =>
    cases target with
    | none => exact parts_pure rfl
    | some r => exact parts_map_of_none _ _ fun _ => rfl
  | decrement family keep target =>
    cases target with
    | none => exact parts_pure rfl
    | some r =>
      exact ((parts_decrement family keep r w).mono fun d spared => spared.parted _).map _
        fun _ => rfl
  | listPop r => exact (parts_listPop r w).map _ fun _ => rfl
  | listSet r index s => exact (parts_listSet r index s w).map _ fun _ => rfl
  | dictInsert r key s => exact (parts_dictInsert r key s w).map _ fun _ => rfl

end Act

/-- The record that a task dooms was there, with the payload it is doomed with unless the task has
first rewritten it. -/
theorem Task.doomed?_parted {t : Task} {cx : Context} {grants : Grants} {b : Bindings} {d : Doomed}
    (h : t.doomed? cx grants b = some d) :
    Act.Spared cx d ∨ ∃ site u policy bind c, t = .perform site (.update u policy bind) ∧
      b.update u = .ok c ∧ c.Parted cx d := by
  cases t with
  | perform site command =>
    cases command with
    | update u policy bind =>
      simp only [doomed?] at h
      cases read : b.update u with
      | error f =>
        rw [read] at h
        cases h
      | ok c =>
        rw [read] at h
        exact Or.inr ⟨site, u, policy, bind, c, rfl, read,
          (Act.parts_change c _).of_doomed? h⟩
    | ask | popScope | setHook | block => cases h
  | releaseRefs refs =>
    cases refs with
    | nil => cases h
    | cons r rest =>
      exact Or.inl ((Act.parts_decrement .heap false r _).of_doomed? h)
  | exitScope | drain =>
    exact Or.inl ((Act.parts_unearthNext _).of_doomed? h)
  | runScript | bury | finish | leaveBlock | unwind | sweep => cases h

end ScopedHeap
