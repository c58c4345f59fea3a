import ScopedHeap.Proofs.Conduct
import ScopedHeap.Proofs.Weight.Store

/-!
# The weight of operations

`Act.Bounded x g p` says that carrying out `x` adds at most `g` to the weight of a context and of
the result together, where `p` tells what the result weighs. A record that is doomed takes its
weight along. The main statement is `bounded_change`: a change adds at most four, and two for each
slot that it brings in. -/
namespace ScopedHeap

namespace Act

/-- Carrying out `x` adds at most `g` to the weight, that of the result included. -/
def Bounded {α : Type} (x : Act α) (g : Nat) (p : α → Nat) : Prop :=
  ∀ w, match x w with
    | .ok a v => v.context.weight + p a ≤ w.context.weight + g
    | .error _ v => v.context.weight ≤ w.context.weight + g

variable {α β : Type} {g k : Nat}

theorem Bounded.pure (a : α) (p : α → Nat) : Bounded (Pure.pure a) (p a) p := fun _ =>
  Nat.le_refl _

theorem Bounded.throw (e : Error) (g : Nat) (p : α → Nat) :
    Bounded (throw e : Act α) g p := fun _ => Nat.le_add_right _ _

theorem Bounded.bind {x : Act α} {f : α → Act β} {p : α → Nat} {q : β → Nat}
    (hx : Bounded x g p) (hf : ∀ a, Bounded (f a) (p a + k) q) :
    Bounded (x >>= f) (g + k) q := by
  intro w
  have hw := hx w
  simp only [Bind.bind, EStateM.bind]
  cases hxw : x w with
  | ok a v =>
    simp only [hxw] at hw
    have hv := hf a v
    simp only
    split <;> simp_all <;> omega
  | error e v =>
    simp only [hxw] at hw
    simp only
    omega

theorem Bounded.mono {x : Act α} {p p' : α → Nat} {g' : Nat} (hx : Bounded x g p)
    (hg : g ≤ g') (hp : ∀ a, p' a ≤ p a) : Bounded x g' p' := by
  intro w
  have hw := hx w
  cases hxw : x w with
  | ok a v =>
    simp only [hxw] at hw ⊢
    have := hp a
    omega
  | error e v =>
    simp only [hxw] at hw ⊢
    omega

theorem bounded_context : Bounded context 0 (fun _ => 0) := fun _ => Nat.le_refl _

theorem bounded_nextGrant : Bounded nextGrant 0 (fun _ => 0) := fun _ => Nat.le_refl _

theorem bounded_read {f : Context → Except Error α} : Bounded (read f) 0 (fun _ => 0) := by
  intro w
  simp only [read]
  cases f w.context <;> exact Nat.le_refl _

theorem bounded_notify (n : Notice) : Bounded (notify n) 0 (fun _ => 0) := fun _ => Nat.le_refl _

theorem bounded_modifyCounters (f : Counters → Counters) :
    Bounded (modifyCounters f) 0 (fun _ => 0) := fun _ => Nat.le_refl _

theorem bounded_modifyTable {f : Table → Table} (h : ∀ t, (f t).weight ≤ t.weight + g) :
    Bounded (modifyTable f) g (fun _ => 0) := by
  intro w
  have := h w.context.table
  show (f w.context.table).weight + w.context.scopes.weight + 0 ≤
    w.context.table.weight + w.context.scopes.weight + g
  omega

theorem bounded_modifyRecord {f : Record → Record} (h : Record.KeepsWeight f) (r : Ref) :
    Bounded (modifyRecord r f) 0 (fun _ => 0) :=
  bounded_modifyTable fun t => Nat.le_of_eq (t.weight_modifyAt_of_eq r.index h)

/-- Operations that leave the weight alone, or lower it. -/
abbrev Light (x : Act α) : Prop := Bounded x 0 (fun _ => 0)

theorem Light.bind {x : Act α} {f : α → Act β} {q : β → Nat} (hx : Light x)
    (hf : ∀ a, Bounded (f a) g q) : Bounded (x >>= f) g q := by
  simpa using Bounded.bind (k := g) hx fun a => by simpa using hf a

theorem Bounded.bindLight {x : Act α} {f : α → Act β} (hx : Bounded x g (fun _ => 0))
    (hf : ∀ a, Light (f a)) : Bounded (x >>= f) g (fun _ => 0) := by
  simpa using Bounded.bind (k := 0) hx fun a => by simpa using hf a

theorem light_pure (a : α) : Light (Pure.pure a : Act α) := Bounded.pure a (fun _ => 0)

theorem keeps_setRefcount (n : Nat) : Record.KeepsWeight (Record.setRefcount n) := fun _ => rfl

theorem keeps_setState (s : State) : Record.KeepsWeight (Record.setState s) := fun _ => rfl

theorem light_increment (family : Family) (r : Ref) : Light (increment family r) := by
  unfold increment
  refine Light.bind bounded_context fun _ => Light.bind bounded_read fun header => ?_
  have count := Light.bind (bounded_modifyRecord (keeps_setRefcount (header.refcount + 1)) r)
    fun _ => bounded_notify (.incremented r family (header.refcount + 1))
  split
  · split
    · exact Light.bind (Bounded.throw _ _ _) fun _ => count
    · exact count
  · exact light_pure _

theorem bounded_onTable {f : Table → Except Error (α × Table)} {p : α → Nat}
    (h : ∀ t a u, f t = .ok (a, u) → u.weight + p a ≤ t.weight + g) :
    Bounded (onTable f) g p := by
  intro w
  simp only [onTable]
  cases hf : f w.context.table with
  | error e => simp
  | ok p =>
    have := h _ _ _ hf
    simp only [Context.weight] at *
    omega

theorem bounded_onScopes {f : ScopeStack → Except Error (α × ScopeStack)} {p : α → Nat}
    (h : ∀ s a u, f s = .ok (a, u) → u.weight + p a ≤ s.weight + g) :
    Bounded (onScopes f) g p := by
  intro w
  simp only [onScopes]
  cases hf : f w.context.scopes with
  | error e => simp
  | ok p =>
    have := h _ _ _ hf
    simp only [Context.weight] at *
    omega

theorem bounded_unearth (r : Ref) : Bounded (unearth r) 0 (fun d => d.record.weight) := by
  refine Bounded.bind (k := 0) (g := 0) (p := Record.weight)
    (bounded_onTable fun t record u h => ?_) fun record => ?_
  · exact Nat.le_of_eq (Table.weight_remove h)
  · exact Bounded.pure (α := Doomed) ⟨r, record⟩ fun d => d.record.weight

def doomedWeight (d : Option Doomed) : Nat := d.elim 0 fun d => d.record.weight

theorem bounded_unearthSome (r : Ref) :
    Bounded (some <$> unearth r) 0 doomedWeight :=
  Bounded.bind (k := 0) (bounded_unearth r) fun d => Bounded.pure (some d) doomedWeight

theorem bounded_release (r : Ref) : Bounded (release r) 1 doomedWeight := by
  unfold release
  refine Light.bind (bounded_modifyTable fun t => Nat.le_of_eq (t.weight_detach _)) fun _ =>
    Light.bind bounded_context fun current => Light.bind bounded_read fun header => ?_
  have close := Light.bind (bounded_modifyCounters fun c => { c with deferred := c.deferred + 1 })
    fun _ => Light.bind (bounded_notify (.deferred r header.creationScope current.current))
    fun _ => Bounded.pure none doomedWeight
  split
  · exact (bounded_unearthSome r).mono (by omega) fun _ => Nat.le_refl _
  · refine Light.bind (bounded_modifyRecord (keeps_setState _) r) fun _ => ?_
    refine Bounded.bind (g := 1) (k := 0) (p := fun _ => 0)
      (bounded_onScopes fun s a u h => ?_) fun atHome => ?_
    · have := s.weight_defer header.home r
      simp only [Except.ok.injEq] at h
      simpa [h] using this
    · split
      · exact Light.bind (bounded_notify _) fun _ => close
      · exact close

theorem bounded_decrement (family : Family) (keep : Bool) (r : Ref) :
    Bounded (decrement family keep r) (if keep then 0 else 1) doomedWeight := by
  unfold decrement
  refine Light.bind bounded_context fun current => Light.bind bounded_read fun header => ?_
  have nothing : Bounded (Pure.pure none : Act (Option Doomed)) (if keep then 0 else 1)
      doomedWeight :=
    (Bounded.pure none doomedWeight).mono (by simp [doomedWeight]) fun _ => Nat.le_refl _
  have count := Light.bind
    (bounded_modifyRecord (keeps_setRefcount (header.refcount - 1)) r) fun _ =>
    Light.bind (bounded_notify (.decremented r family (header.refcount - 1))) fun _ =>
      show Bounded (if (header.refcount - 1 = 0 && !keep) = true then release r else Pure.pure none)
        (if keep then 0 else 1) doomedWeight by
      cases keep with
      | true => simpa using nothing
      | false =>
        split
        · exact bounded_release r
        · exact nothing
  split
  · exact nothing
  · split
    · exact Light.bind (Bounded.throw _ _ _) fun _ => count
    · exact count

theorem light_bury (r : Ref) (scope : ScopeId) (hooked : Bool) : Light (bury r scope hooked) :=
  Light.bind (bounded_modifyCounters _) fun _ => bounded_notify _

theorem Bounded.catching {x : Act α} {f : Error → Act α} {p : α → Nat}
    (hx : Bounded x g p) (hf : ∀ e, Bounded (f e) k p) :
    Bounded (tryCatch x f) (g + k) p := by
  intro w
  have hw := hx w
  have caught : tryCatch x f w = match x w with
      | .ok a v => .ok a v
      | .error e v => f e v := by
    show EStateM.tryCatch x f w = _
    unfold EStateM.tryCatch
    cases x w <;> rfl
  rw [caught]
  cases hxw : x w with
  | ok a v =>
    simp only [hxw] at hw ⊢
    omega
  | error e v =>
    simp only [hxw] at hw ⊢
    have hv := hf e v
    cases hfv : f e v <;> simp only [hfv] at hv ⊢ <;> omega

theorem light_unretain (refs : List Ref) : Light (unretain refs) := by
  induction refs with
  | nil => exact light_pure _
  | cons r rest ih =>
    unfold unretain
    refine Light.bind ?_ fun _ => ih
    refine Bounded.catching (g := 0) (k := 0) ?_ fun e => bounded_notify _
    exact Light.bind ((bounded_decrement .heap true r).mono (Nat.le_refl _) fun _ => Nat.zero_le _)
      fun _ => light_pure _

theorem light_retainFrom (done refs : List Ref) : Light (retainFrom done refs) := by
  induction refs generalizing done with
  | nil => exact light_pure _
  | cons r rest ih =>
    unfold retainFrom
    refine Light.bind ?_ fun _ => ih _
    exact Bounded.catching (g := 0) (k := 0) (light_increment _ _) fun e =>
      Light.bind (light_unretain done) fun _ => Bounded.throw _ _ _

theorem light_retain (slots : List Slot) : Light (retain slots) :=
  Light.bind bounded_read fun _ => light_retainFrom _ _

theorem bounded_allocRecord (payload : Payload) :
    Bounded (allocRecord payload) (2 + 2 * payload.slots.length) (fun _ => 0) := by
  unfold allocRecord
  refine Light.bind bounded_context fun cx => Light.bind bounded_nextGrant fun grant =>
    Bounded.bindLight (bounded_onTable fun t a u h => ?_) fun r =>
      Light.bind (bounded_modifyTable fun t => Nat.le_of_eq (t.weight_attach _)) fun _ =>
        Light.bind (bounded_modifyCounters _) fun _ => Light.bind (bounded_notify _) fun _ =>
          light_pure _
  simpa [Record.weight, Header.fresh] using Table.weight_insert h

theorem bounded_allocateStatic (payload : Payload) :
    Bounded (allocateStatic payload) (2 + 2 * payload.slots.length) (fun _ => 0) := by
  refine Light.bind bounded_nextGrant fun grant => bounded_onTable fun t a u h => ?_
  simpa [Record.weight, Header.forever] using Table.weight_insert h

theorem bounded_installHook (r : Ref) (hook : Hook) :
    Bounded (installHook r hook) hook.weight (fun _ => 0) := by
  unfold installHook
  have install : Bounded (modifyRecord r (Record.setHook hook)) hook.weight (fun _ => 0) :=
    bounded_modifyTable fun t => by
      have := t.weight_modifyAt r.index (Record.setHook hook)
      cases h : t.recordAt? r.index with
      | none => simp_all
      | some record => simp_all [Record.weight, Record.setHook]; omega
  refine Light.bind bounded_read fun header => ?_
  split
  · exact Light.bind (Bounded.throw _ _ _) fun _ => install
  · exact install

theorem bounded_updatePayload (r : Ref) {f : Payload → Except Error (α × Payload)} {p : α → Nat}
    (h : ∀ old a new, f old = .ok (a, new) →
      2 * new.slots.length + p a ≤ 2 * old.slots.length + g) :
    Bounded (updatePayload r f) g p := by
  refine bounded_onTable fun t a u hu => ?_
  simp only [Table.updatePayload, Bind.bind, Except.bind] at hu
  split at hu
  · simp at hu
  · rename_i record hr
    split at hu
    · simp at hu
    · rename_i p hf
      simp only [Pure.pure, Except.pure, Except.ok.injEq, Prod.mk.injEq] at hu
      obtain ⟨rfl, rfl⟩ := hu
      have found := Table.recordAt?_of_find? (Table.find?_of_find hr)
      have hw := t.weight_modifyAt r.index (Record.setPayload p.2)
      have := h _ _ _ hf
      simp only [found, Option.elim_some, Record.weight, Record.setPayload] at hw
      omega

theorem bounded_exchangePayload (r : Ref) (payload : Payload) :
    Bounded (exchangePayload r payload) (2 * payload.slots.length) (fun p => 2 * p.slots.length) :=
  bounded_updatePayload r fun p a q h => by
    simp only [Except.ok.injEq, Prod.mk.injEq] at h
    obtain ⟨rfl, rfl⟩ := h
    omega

theorem bounded_setPayload (r : Ref) (payload : Payload) :
    Bounded (setPayload r payload) (2 * payload.slots.length) (fun _ => 0) :=
  Bounded.bindLight ((bounded_exchangePayload r payload).mono (Nat.le_refl _)
    fun _ => Nat.zero_le _) fun _ => light_pure _

theorem bounded_staticFrom (r : Ref) : Bounded (staticFrom r) 2 (fun _ => 0) :=
  Bounded.bind (g := 0) (k := 2) (bounded_exchangePayload r .empty) fun p =>
    (bounded_allocateStatic p).mono (by omega) fun _ => Nat.le_refl _

theorem light_swapPayloads (a b : Ref) : Light (swapPayloads a b) :=
  Bounded.bind (g := 0) (k := 0) (bounded_exchangePayload b .empty) fun p =>
    Bounded.bind (k := 0) (bounded_exchangePayload a p) fun q => bounded_setPayload b q

theorem light_writeRaw (r : Ref) (offset : Nat) (bytes : List UInt8) :
    Light (writeRaw r offset bytes) :=
  bounded_updatePayload r fun p a q h => by
    cases p <;>
      simp_all [Payload.asRaw, Payload.slots, Bind.bind, Except.bind, Pure.pure, Except.pure]
    obtain ⟨_, rfl⟩ := h
    simp

theorem bounded_pushScope : Bounded pushScope 2 (fun _ => 0) := by
  unfold pushScope
  refine Bounded.bindLight ?_ fun _ => Light.bind bounded_context fun _ =>
    Light.bind (bounded_notify _) fun _ => light_pure _
  intro w
  have := w.context.scopes.weight_push
  show w.context.table.weight + w.context.scopes.push.weight + 0 ≤
    w.context.table.weight + w.context.scopes.weight + 2
  omega

theorem bounded_exitScope (scope : ScopeId) (drained : Nat) :
    Bounded (exitScope scope drained) 0 (fun _ => 2) := by
  have leave : Bounded (do
      let _ ← onScopes ScopeStack.pop
      notify (.scopeExited scope drained)) 0 (fun _ => 2) := by
    refine Bounded.bind (g := 0) (k := 0) (p := fun _ => 2)
      (bounded_onScopes fun s a u h => ScopeStack.weight_pop h) fun _ w => ?_
    exact Nat.le_refl _
  have audit : Light (auditScope scope) := by
    unfold auditScope
    refine Light.bind bounded_context fun _ => ?_
    dsimp only
    split <;> exact bounded_notify _
  unfold exitScope
  refine Light.bind bounded_context fun _ => ?_
  split
  · exact Light.bind audit fun _ => leave
  · exact leave

theorem bounded_unearthNext :
    Bounded unearthNext 0 (fun d => d.elim 0 fun d => d.record.weight + 1) := by
  unfold unearthNext
  refine Bounded.bind (g := 0) (k := 0) (p := fun r => r.elim 0 fun _ => 1)
    (bounded_onScopes fun s a u h => ?_) fun next => ?_
  · have := s.weight_nextPending
    simp only [Except.ok.injEq] at h
    simpa [h] using Nat.le_of_eq this
  · cases next with
    | none =>
      exact Bounded.pure none fun d => Option.elim d 0 fun (d : Doomed) => d.record.weight + 1
    | some r =>
      refine Bounded.mono (g := 0 + 1) (Bounded.bind (k := 1) (bounded_unearth r) fun d => ?_)
        (by simp) fun _ => Nat.le_refl _
      exact Bounded.pure (some d) fun d => d.elim 0 fun d => d.record.weight + 1

theorem bounded_allocContainer (payload : Payload) (slots : List Slot) :
    Bounded (allocContainer payload slots) (2 + 2 * payload.slots.length) (fun _ => 0) := by
  unfold allocContainer
  refine Light.bind (light_retain slots) fun _ => Bounded.bindLight ?_ fun r =>
    Light.bind (bounded_installHook r _) fun _ => light_pure _
  exact Bounded.catching (k := 0) (bounded_allocRecord payload) fun e =>
    Light.bind (light_unretain _) fun _ => Bounded.throw _ _ _

theorem bounded_dropSlot (v : Slot) : Bounded (dropSlot v) 1 doomedWeight := by
  unfold dropSlot
  split
  · exact bounded_decrement .heap false _
  · exact (Bounded.pure none doomedWeight).mono (by simp [doomedWeight]) fun _ => Nat.le_refl _

theorem bounded_updateList (r : Ref) {f : SlotList → Except Error (α × SlotList)}
    (h : ∀ l a k, f l = .ok (a, k) → 2 * k.items.length ≤ 2 * l.items.length + g) :
    Bounded (updateList r f) g (fun _ => 0) :=
  bounded_updatePayload r fun p a q hq => by
    cases p <;> simp only [Payload.asList, Bind.bind, Except.bind] at hq <;> try cases hq
    split at hq
    · simp at hq
    · rename_i x hx
      simp only [Pure.pure, Except.pure, Except.ok.injEq, Prod.mk.injEq] at hq
      obtain ⟨rfl, rfl⟩ := hq
      simpa [Payload.slots] using h _ _ _ hx

theorem bounded_updateDict (r : Ref) {f : SlotDict → Except Error (α × SlotDict)}
    (h : ∀ d a e, f d = .ok (a, e) → 2 * (e.keys.items.length + e.values.items.length) ≤
      2 * (d.keys.items.length + d.values.items.length) + g) :
    Bounded (updateDict r f) g (fun _ => 0) :=
  bounded_updatePayload r fun p a q hq => by
    cases p <;> simp only [Payload.asDict, Bind.bind, Except.bind] at hq <;> try cases hq
    split at hq
    · simp at hq
    · rename_i x hx
      simp only [Pure.pure, Except.pure, Except.ok.injEq, Prod.mk.injEq] at hq
      obtain ⟨rfl, rfl⟩ := hq
      simpa [Payload.slots] using h _ _ _ hx

theorem light_reserveList (r : Ref) (limit : Nat) : Light (reserveList r limit) := by
  refine Light.bind bounded_nextGrant fun grant => bounded_updateList r fun l a k h => ?_
  obtain ⟨grown, reserved, h⟩ := bind_eq_ok.mp h
  cases h
  rw [SlotList.items_reserve reserved]
  exact Nat.le_refl _

theorem bounded_listPush (r : Ref) (v : Slot) : Bounded (listPush r v) 2 (fun _ => 0) := by
  unfold listPush
  refine Light.bind bounded_read fun _ => Light.bind bounded_read fun _ =>
    Light.bind bounded_context fun cx => Light.bind (light_reserveList r _) fun _ =>
      Light.bind (light_retain _) fun _ =>
        Bounded.bindLight (bounded_updateList r fun l a k h => ?_) fun _ => bounded_notify _
  simp only [Except.ok.injEq, Prod.mk.injEq] at h
  obtain ⟨_, rfl⟩ := h
  simp only [SlotList.push, List.length_append, List.length_cons, List.length_nil]
  omega

theorem bounded_listPop (r : Ref) : Bounded (listPop r) 1 (fun p => doomedWeight p.2) := by
  unfold listPop
  refine Light.bind (bounded_updateList r fun l a k h => ?_) fun v => ?_
  · unfold SlotList.pop at h
    split at h
    · simp only [Except.ok.injEq, Prod.mk.injEq] at h
      obtain ⟨_, rfl⟩ := h
      simp only [List.length_dropLast]
      omega
    · simp at h
  · exact Bounded.bind (k := 0) (bounded_dropSlot v) fun d =>
      Bounded.pure (v, d) fun p => doomedWeight p.2

theorem bounded_dropOld (old : Option Slot) :
    Bounded (old.elim (Pure.pure none) dropSlot) 1 doomedWeight := by
  cases old with
  | none =>
    exact (Bounded.pure none doomedWeight).mono (by simp [doomedWeight]) fun _ => Nat.le_refl _
  | some v => exact bounded_dropSlot v

theorem bounded_listSet (r : Ref) (index : Int) (v : Slot) :
    Bounded (listSet r index v) 1 doomedWeight := by
  unfold listSet
  refine Light.bind bounded_read fun i => Light.bind (light_retain _) fun _ =>
    Light.bind (bounded_updateList r fun l a k h => ?_) fun old => bounded_dropOld old
  simp only [Except.ok.injEq, Prod.mk.injEq] at h
  obtain ⟨_, rfl⟩ := h
  simp [SlotList.replace]

theorem bounded_dictReplace (r : Ref) (i : Nat) (v : Slot) :
    Bounded (dictReplace r i v) 1 doomedWeight := by
  unfold dictReplace
  refine Light.bind (light_retain _) fun _ =>
    Light.bind (bounded_updateDict r fun l a k h => ?_) fun old => bounded_dropOld old
  simp only [Except.ok.injEq, Prod.mk.injEq] at h
  obtain ⟨_, rfl⟩ := h
  simp [SlotList.replace]

theorem light_reserveDict (r : Ref) (limit : Nat) : Light (reserveDict r limit) := by
  refine Light.bind bounded_nextGrant fun keyGrant =>
    Light.bind (bounded_updateDict r fun d a e h => ?_) fun _ =>
      Light.bind bounded_nextGrant fun valueGrant => bounded_updateDict r fun d a e h => ?_
  all_goals
    obtain ⟨grown, reserved, h⟩ := bind_eq_ok.mp h
    cases h
    rw [SlotList.items_reserve reserved]
    exact Nat.le_refl _

theorem bounded_dictAppend (r : Ref) (key v : Slot) :
    Bounded (dictAppend r key v) 4 (fun _ => 0) := by
  unfold dictAppend
  refine Light.bind bounded_context fun cx => Light.bind (light_reserveDict r _) fun _ =>
    Light.bind (light_retain _) fun _ => bounded_updateDict r fun d a e h => ?_
  simp only [Except.ok.injEq, Prod.mk.injEq] at h
  obtain ⟨_, rfl⟩ := h
  simp only [SlotList.push, List.length_append, List.length_cons, List.length_nil]
  omega

theorem bounded_dictInsert (r : Ref) (key v : Slot) :
    Bounded (dictInsert r key v) 4 doomedWeight := by
  unfold dictInsert
  refine Light.bind bounded_read fun found => ?_
  split
  · exact (bounded_dictReplace r _ v).mono (by omega) fun _ => Nat.le_refl _
  · exact Bounded.bind (g := 4) (k := 0) (bounded_dictAppend r key v) fun _ =>
      Bounded.pure none doomedWeight

theorem bounded_readThen {f : Context → Except Error α} {next : α → Act β} {p : β → Nat}
    (h : ∀ cx a, f cx = .ok a → Bounded (next a) g p) : Bounded (read f >>= next) g p := by
  intro w
  simp only [Bind.bind, EStateM.bind, read]
  cases hf : f w.context with
  | error e => simp
  | ok a => exact h _ _ hf w

theorem bounded_newList (kind : SlotKind) (slots : List Slot) :
    Bounded (newList kind slots) (2 + 2 * slots.length) (fun _ => 0) :=
  Light.bind bounded_nextGrant fun _ => bounded_readThen fun _ l h => by
    simpa [Payload.slots, SlotList.items_ofSlots h] using bounded_allocContainer (.list l) slots

theorem bounded_newSet (kind : SlotKind) (slots : List Slot) :
    Bounded (newSet kind slots) (2 + 2 * slots.length) (fun _ => 0) :=
  Light.bind bounded_nextGrant fun _ => bounded_readThen fun _ l h => by
    simpa [Payload.slots, SlotList.items_ofSlots h] using bounded_allocContainer (.set ⟨l⟩) slots

theorem bounded_newDict (keyKind valueKind : SlotKind) (keys values : List Slot) :
    Bounded (newDict keyKind valueKind keys values) (2 + 2 * (keys.length + values.length))
      (fun _ => 0) :=
  Light.bind bounded_nextGrant fun _ => Light.bind bounded_nextGrant fun _ =>
    bounded_readThen fun _ d h => by
      obtain ⟨keyItems, valueItems, _⟩ := SlotDict.items_ofSlots h
      simpa [Payload.slots, keyItems, valueItems] using
        bounded_allocContainer (.dict d) (keys ++ values)

theorem Bounded.answering {x : Act α} {p : α → Nat} (f : α → Effect)
    (hx : Bounded x g p) (h : ∀ a, doomedWeight (f a).doomed ≤ p a) :
    Bounded (x >>= fun a => Pure.pure (f a)) g (fun e => doomedWeight e.doomed) :=
  Bounded.bind (k := 0) hx fun a => (Bounded.pure (f a) fun e => doomedWeight e.doomed).mono
    (h a) fun _ => Nat.le_refl _

theorem bounded_allocate (size : Nat) (zeroed : Bool) :
    Bounded (allocate size zeroed) 2 (fun _ => 0) := by
  unfold allocate
  have store := Light.bind bounded_nextGrant fun grant => Light.bind (bounded_read (f := fun _ =>
    buffer grant (size - headerSize) (if zeroed then 0 else fillByte))) fun bytes =>
      bounded_allocRecord (.raw bytes)
  by_cases small : size < headerSize
  · rw [if_pos small]
    exact Light.bind (Bounded.throw _ _ _) fun _ => store
  · rw [if_neg small]
    exact store

theorem bounded_allocBuffered (bytes : Nat) (payload : Payload) :
    Bounded (allocBuffered bytes payload) (2 + 2 * payload.slots.length) (fun _ => 0) := by
  refine Light.bind bounded_nextGrant fun grant => ?_
  split
  · exact bounded_allocRecord payload
  · exact Bounded.throw _ _ _

/-- No change adds more than four to the weight beside the slots that it brings in. -/
theorem bounded_change (c : Change) :
    Bounded (Act.change c) (4 + 2 * c.slotCount) (fun e => doomedWeight e.doomed) := by
  have weaken {x : Act Effect} {g : Nat} (hx : Bounded x g fun e => doomedWeight e.doomed)
      (h : g ≤ 4 + 2 * c.slotCount) :
      Bounded x (4 + 2 * c.slotCount) fun e => doomedWeight e.doomed :=
    hx.mono h fun _ => Nat.le_refl _
  have none_le {α : Type} (a : α) : doomedWeight none ≤ 0 := Nat.le_refl _
  cases c with
  | allocate size zeroed =>
    exact weaken ((bounded_allocate size zeroed).answering _ none_le) (by omega)
  | allocateStatic contents =>
    refine weaken ((bounded_allocateStatic contents.payload).answering _ none_le) ?_
    cases contents <;> simp [Literal.payload, Payload.slots] <;> omega
  | staticFrom r => exact weaken ((bounded_staticFrom r).answering _ none_le) (by omega)
  | setPayload r contents =>
    refine weaken ((bounded_setPayload r contents.payload).answering _ none_le) ?_
    cases contents <;> simp [Literal.payload, Payload.slots]
  | swapPayloads a b => exact weaken ((light_swapPayloads a b).answering _ none_le) (by omega)
  | writeRaw r offset bytes =>
    exact weaken ((light_writeRaw r offset bytes).answering _ none_le) (by omega)
  | pushScope => exact weaken (bounded_pushScope.answering _ none_le) (by omega)
  | increment family target =>
    cases target with
    | none => exact weaken (Bounded.pure _ _) (Nat.zero_le _)
    | some r => exact weaken ((light_increment family r).answering _ none_le) (by omega)
  | decrement family keep target =>
    cases target with
    | none => exact weaken (Bounded.pure _ _) (Nat.zero_le _)
    | some r =>
      exact weaken ((bounded_decrement family keep r).answering _ fun _ => Nat.le_refl _)
        (by split <;> omega)
  | newStr bytes =>
    exact weaken ((bounded_allocBuffered _ (.str bytes)).answering _ none_le)
      (by simp [Payload.slots, Update.slotCount])
  | newText content =>
    exact weaken ((bounded_allocBuffered _ (.text content)).answering _ none_le)
      (by simp [Payload.slots, Update.slotCount])
  | newList kind slots =>
    exact weaken ((bounded_newList kind slots).answering _ none_le) (by simp [Update.slotCount])
  | listPush r v => exact weaken ((bounded_listPush r v).answering _ none_le) (by omega)
  | listPop r => exact weaken ((bounded_listPop r).answering _ fun _ => Nat.le_refl _) (by omega)
  | listSet r index v =>
    exact weaken ((bounded_listSet r index v).answering _ fun _ => Nat.le_refl _) (by omega)
  | newDict keyKind valueKind keys values =>
    exact weaken ((bounded_newDict keyKind valueKind keys values).answering _ none_le)
      (by simp [Update.slotCount])
  | dictInsert r key v =>
    exact weaken ((bounded_dictInsert r key v).answering _ fun _ => Nat.le_refl _) (by omega)
  | newSet kind slots =>
    exact weaken ((bounded_newSet kind slots).answering _ none_le) (by simp [Update.slotCount])

end Act

end ScopedHeap
