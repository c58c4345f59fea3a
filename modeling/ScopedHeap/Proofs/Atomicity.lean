import ScopedHeap.Proofs.Endings
import ScopedHeap.Proofs.Exits
import ScopedHeap.Proofs.Ledger

/-!
# Operations that fail

A command that answers with an error leaves the context as it was, to the last link of the live
list. What has been counted by then is taken back (`Act.ends_retain`, `Act.ends_allocContainer`),
and what a container gives away can be given up, provided that slots refer to records that are there
and are counted (`Context.Covered`). All that may remain is the room that a list or a dict has made
for a slot it could not take in (`Update.Enlarges`). When the memory runs out, that may be the room
of the keys of a dict alone, and the values catch up the next time (`Update.Strains`).
-/
namespace ScopedHeap

namespace Context

variable {cx : Context} {r x : Ref} {record : Record}

/-- What slots refer to is there and does not wait, and unless it is static it is counted at least
as often as slots refer to it. -/
def Covered (cx : Context) : Prop :=
  ∀ r record, cx.table.find? r = some record → ∀ x ∈ record.payload.refs,
    ∃ target, cx.table.find? x = some target ∧ target.header.state ≠ .pending ∧
      (target.header.creationScope = staticScope ∨ cx.table.slotCount x ≤ target.header.refcount)

theorem covered_iff : cx.Covered ↔ ∀ i < cx.table.cells.size, ∀ record ∈ cx.table.recordAt? i,
    ∀ x ∈ record.payload.refs, ∃ target ∈ cx.table.find? x, target.header.state ≠ .pending ∧
      (target.header.creationScope = staticScope ∨
        cx.table.slotCount x ≤ target.header.refcount) := Table.forall_find?_iff

instance : Decidable cx.Covered := decidable_of_iff _ covered_iff.symm

theorem slotCount_pos (found : cx.table.find? r = some record) (mem : x ∈ record.payload.refs) :
    0 < cx.table.slotCount x := by
  have emptied := Table.slotCount_setPayload found .empty x
  have none : Payload.empty.refs.count x = 0 := rfl
  have some := List.count_pos_iff.mpr mem
  omega

theorem Covered.not_unheld (covered : cx.Covered) (found : cx.table.find? r = some record)
    (mem : x ∈ record.payload.refs) (refs : List Ref) (can : ∀ r ∈ refs, cx.table.CanRaise r)
    (payload : Payload) :
    ¬ Unheld { cx with
      table := (cx.table.raiseAll refs).modifyAt r.index (Record.setPayload payload) } x := by
  rintro ⟨tracked, zero⟩
  obtain ⟨target, there, _, enough⟩ := covered r record found x mem
  have raised : (cx.table.raiseAll refs).find? x = some (target.raised (refs.count x)) := by
    rw [Table.find?_raiseAll fun r hr => (can r hr).isSome, there]
    rfl
  have after : ∃ after, ((cx.table.raiseAll refs).modifyAt r.index
      (Record.setPayload payload)).find? x = some after ∧
        after.header = (target.raised (refs.count x)).header := by
    rw [Table.find?_modifyAt, raised]
    split
    · exact ⟨_, rfl, rfl⟩
    · exact ⟨_, rfl, rfl⟩
  obtain ⟨after, hafter, header⟩ := after
  rw [Table.isStatic_eq_false hafter, header, Record.creationScope_raised] at tracked
  rw [Table.count_of_find? hafter, header, Record.raised, if_neg tracked] at zero
  have pos := slotCount_pos found mem
  have counted : target.header.refcount + refs.count x = 0 := zero
  have le := enough.resolve_left tracked
  omega

end Context

/-- The list or dict that a change was to add to has room for twice as many slots, and nothing else
is different. -/
inductive Update.Enlarges (cx : Context) : Change → Context → Prop
  | list {r : Ref} {v : Slot} {record : Record} {l : SlotList}
      (found : cx.table.find? r = some record) (payload : record.payload = .list l) :
      Enlarges cx (.listPush r v) { cx with
        table := cx.table.modifyAt r.index (Record.setPayload (.list l.doubled)) }
  | dict {r : Ref} {key v : Slot} {record : Record} {d : SlotDict}
      (found : cx.table.find? r = some record) (payload : record.payload = .dict d) :
      Enlarges cx (.dictInsert r key v) { cx with
        table := cx.table.modifyAt r.index (Record.setPayload (.dict d.doubled)) }

/-- One list alone of the dict that a change was to add to has room for twice as many slots: the
keys, since memory was refused for the values, or the values after an earlier refusal. -/
inductive Update.Strains (cx : Context) (grants : Grants) : Change → Error → Context → Prop
  | keys {r : Ref} {key v : Slot} {record : Record} {d : SlotDict} {bytes : Nat}
      (found : cx.table.find? r = some record) (payload : record.payload = .dict d)
      (even : d.keys.capacity = d.values.capacity) (refused : grants.Refuses bytes) :
      Strains cx grants (.dictInsert r key v) (.outOfMemory bytes) { cx with
        table := cx.table.modifyAt r.index
          (Record.setPayload (.dict { d with keys := d.keys.doubled })) }
  | values {r : Ref} {key v : Slot} {record : Record} {d : SlotDict} {e : Error}
      (found : cx.table.find? r = some record) (payload : record.payload = .dict d)
      (lopsided : d.Lopsided) :
      Strains cx grants (.dictInsert r key v) e { cx with
        table := cx.table.modifyAt r.index
          (Record.setPayload (.dict { d with values := d.values.doubled })) }

/-- What a change that failed with an error may have made of the context. -/
def Update.Remains (c : Change) (w : Workspace) (e : Error) (cx : Context) : Prop :=
  cx = w.context ∨ c.Enlarges w.context cx ∨ c.Strains w.context w.grants e cx

namespace Act

open Context

variable {α β : Type} {x : Act α} {w : Workspace} {r : Ref} {v : Slot}
  {P Q : Error → Context → Prop}

def Unless (P : Error → Context → Prop) : Except Error α → Context → Prop
  | .ok _, _ => True
  | .error e, cx => P e cx

/-- If the operation fails, `P` holds of the error and of the context it leaves behind. -/
def FailsWith (x : Act α) (w : Workspace) (P : Error → Context → Prop) : Prop :=
  x.Ends w (Unless P)

abbrev Atomic (x : Act α) (w : Workspace) : Prop := x.FailsWith w fun _ cx => cx = w.context

theorem FailsWith.map (h : x.FailsWith w P) (g : α → β) :
    (x >>= fun a => pure (g a)).FailsWith w P :=
  Ends.map h g (fun _ _ h => h) fun _ _ _ => trivial

theorem FailsWith.mono (h : x.FailsWith w P) (imp : ∀ e cx, P e cx → Q e cx) :
    x.FailsWith w Q := by
  apply Ends.mono h
  intro a cx
  cases a with
  | ok => exact id
  | error e => exact imp e cx

theorem atomic_increment (family : Family) (r : Ref) (w : Workspace) :
    (increment family r).Atomic w := by
  apply (ends_increment family r w).mono
  intro a cx h
  cases h with
  | dangling | refused => rfl
  | ignored | raised => trivial

theorem atomic_decrement (family : Family) (keep : Bool) (r : Ref) (w : Workspace) :
    (decrement family keep r).Atomic w := by
  apply (ends_decrement family keep r w).mono
  intro a cx h
  cases h with
  | dangling | underflow => rfl
  | ignored | lowered | destroyed | deferred => trivial

theorem atomic_allocRecord (payload : Payload) (w : Workspace) :
    (allocRecord payload).Atomic w :=
  ends_allocRecord (fun _ => rfl) fun _ _ _ _ => trivial

theorem atomic_allocate (size : Nat) (zeroed : Bool) (w : Workspace) :
    (allocate size zeroed).Atomic w :=
  ends_allocate (fun _ => rfl) fun _ _ => atomic_allocRecord _ _

theorem atomic_allocBuffered (bytes : Nat) (payload : Payload) (w : Workspace) :
    (allocBuffered bytes payload).Atomic w :=
  ends_allocBuffered (fun _ => rfl) fun _ => atomic_allocRecord _ _

theorem atomic_container {γ : Type} {f : Context → Except Error γ} {payload : γ → Payload}
    {slots : List Slot} (sound : w.context.Sound) :
    (read f >>= fun c => allocContainer (payload c) slots).Atomic w :=
  ends_read_bind (fun _ _ => rfl) fun _ _ =>
    ends_allocContainer sound (fun _ => rfl) fun _ _ _ _ _ _ => trivial

theorem failsWith_dropSlot (held : ∀ x, v.ref? = some x → ¬ w.context.Unheld x) :
    (dropSlot v).FailsWith w P := by
  unfold dropSlot
  cases hv : v.ref? with
  | none => exact ends_pure trivial
  | some x =>
    apply (ends_decrement_heap x w).mono
    intro a cx h
    cases a with
    | ok => trivial
    | error => exact absurd h.2 (held x hv)

theorem atomic_listPop (covered : w.context.Covered) (r : Ref) :
    (listPop r).Atomic w := by
  unfold listPop
  apply ends_updatePayload_bind (fun _ _ => rfl)
  intro record v q v₁ found passed hv₁
  obtain ⟨l, k, hl, popped, rfl⟩ := onList_eq_ok.mp passed
  refine FailsWith.map (failsWith_dropSlot ?_) _
  intro x hx
  have mem : x ∈ record.payload.refs := by
    rw [hl, Payload.refs, Payload.slots, SlotList.items_pop popped]
    exact List.mem_filterMap.mpr ⟨v, by simp, hx⟩
  rw [hv₁]
  exact covered.not_unheld found mem [] (by simp) _

theorem atomic_replace {F : Payload → Except Error (Option Slot × Payload)} {q : Payload}
    {record : Record} {old : Option Slot} (covered : w.context.Covered)
    (found : w.context.table.find? r = some record) (passed : F record.payload = .ok (old, q))
    (mem : ∀ v ∈ old, v ∈ record.payload.slots) :
    (retain [v] >>= fun _ => updatePayload r F >>= fun old =>
      old.elim (pure none) dropSlot).Atomic w := by
  apply ends_intake found passed (fun _ => rfl)
  intro v₁ can hv₁
  cases old with
  | none => exact ends_pure trivial
  | some old =>
    apply failsWith_dropSlot
    intro x hx
    rw [hv₁]
    exact covered.not_unheld found (List.mem_filterMap.mpr ⟨old, mem old rfl, hx⟩) _ can _

theorem atomic_listSet (covered : w.context.Covered) (r : Ref) (index : Int) (v : Slot) :
    (listSet r index v).Atomic w := by
  unfold listSet
  apply ends_read_bind (fun _ _ => rfl)
  intro i hi
  obtain ⟨l, hl, _⟩ := bind_eq_ok.mp hi
  obtain ⟨record, found, payload⟩ := Context.list_eq_ok hl
  refine atomic_replace covered found (onList_eq_ok.mpr ⟨l, _, payload, rfl, rfl⟩) ?_
  intro old hold
  rw [payload]
  exact List.mem_of_getElem? hold

theorem atomic_dictReplace {record : Record} {d : SlotDict} (covered : w.context.Covered)
    (found : w.context.table.find? r = some record) (payload : record.payload = .dict d)
    (i : Nat) (v : Slot) : (dictReplace r i v).Atomic w := by
  refine atomic_replace covered found (onDict_eq_ok.mpr ⟨d, _, payload, rfl, rfl⟩) ?_
  intro old hold
  rw [payload]
  exact List.mem_append_right _ (List.mem_of_getElem? hold)

theorem failsWith_listPush (r : Ref) (v : Slot) (w : Workspace) :
    (listPush r v).FailsWith w (Update.Remains (.listPush r v) w) := by
  unfold listPush
  apply ends_read_bind (fun _ _ => Or.inl rfl)
  intro _ _
  apply ends_read_bind (fun _ _ => Or.inl rfl)
  intro _ _
  apply ends_context_bind
  apply ends_reserveList_bind (fun _ => Or.inl rfl)
  intro record l k v₁ found hl grows hv₁
  have found₁ : v₁.context.table.find? r = some (record.setPayload (.list k)) := by
    rw [hv₁, Table.find?_modifyAt_self found]
  refine ends_intake found₁ (onList_eq_ok.mpr ⟨k, k.push v, rfl, rfl, rfl⟩) ?_ ?_
  · intro e
    show Update.Remains (.listPush r v) w e v₁.context
    rw [hv₁]
    rcases grows.eq_or_doubled with rfl | rfl
    · rw [← hl]
      exact Or.inl (restore_eq found)
    · exact Or.inr (Or.inl (.list found hl))
  · exact fun v₂ _ _ => ends_notify trivial

theorem failsWith_dictAppend (sound : w.context.Sound) (r : Ref) (key v : Slot) :
    (dictAppend r key v).FailsWith w (Update.Remains (.dictInsert r key v) w) := by
  unfold dictAppend
  apply ends_context_bind
  apply ends_reserveDict_bind sound
  · exact fun _ => Or.inl rfl
  · intro record d e err found hd _ starves
    obtain ⟨even, _, rfl, bytes, refused, rfl⟩ := starves
    exact Or.inr (Or.inr (.keys found hd even refused))
  intro record d e v₁ found hd paired grows hv₁
  have found₁ : v₁.context.table.find? r = some (record.setPayload (.dict e)) := by
    rw [hv₁, Table.find?_modifyAt_self found]
  rw [← bind_pure (updateDict r _)]
  refine ends_intake found₁
    (onDict_eq_ok.mpr ⟨e, ⟨e.keys.push key, e.values.push v⟩, rfl, rfl, rfl⟩) ?_ ?_
  · intro err
    show Update.Remains (.dictInsert r key v) w err v₁.context
    rw [hv₁]
    rcases paired.eq_of_grows grows with rfl | rfl | ⟨lopsided, rfl⟩
    · rw [← hd]
      exact Or.inl (restore_eq found)
    · exact Or.inr (Or.inl (.dict found hd))
    · exact Or.inr (Or.inr (.values found hd lopsided))
  · exact fun v₂ _ _ => ends_pure trivial

theorem failsWith_dictInsert (sound : w.context.Sound) (covered : w.context.Covered) (r : Ref)
    (key v : Slot) :
    (dictInsert r key v).FailsWith w (Update.Remains (.dictInsert r key v) w) := by
  unfold dictInsert
  apply ends_read_bind (fun _ _ => Or.inl rfl)
  intro position hposition
  obtain ⟨d, hd, _⟩ := bind_eq_ok.mp hposition
  obtain ⟨record, found, payload⟩ := Context.dict_eq_ok hd
  cases position with
  | some i => exact (atomic_dictReplace covered found payload i v).mono fun _ _ => Or.inl
  | none => exact (failsWith_dictAppend sound r key v).map _

/-- A change that fails has done nothing, or has made room in vain. -/
theorem failsWith_change (c : Change) (plain : c.exchangesPayload = false)
    (sound : w.context.Sound) (covered : w.context.Covered) :
    (Act.change c).FailsWith w (c.Remains w) := by
  have unchanged : ∀ {α : Type} {x : Act α} (f : α → Effect), x.Atomic w →
      (x >>= fun a => pure (f a)).FailsWith w (c.Remains w) :=
    fun f h => (FailsWith.map h f).mono fun _ _ => Or.inl
  cases c with
  | allocate size zeroed => exact unchanged _ (atomic_allocate size zeroed w)
  | allocateStatic contents =>
    exact unchanged _ (ends_allocateStatic (fun _ => rfl) fun _ _ _ _ => trivial)
  | staticFrom | setPayload | swapPayloads => cases plain
  | writeRaw r offset bytes =>
    exact unchanged _ (ends_updatePayload (fun _ _ => rfl) fun _ _ _ _ _ => trivial)
  | pushScope => exact unchanged _ (ends_pushScope trivial)
  | increment family target =>
    cases target with
    | none => exact ends_pure trivial
    | some r => exact unchanged _ (atomic_increment family r w)
  | decrement family keep target =>
    cases target with
    | none => exact ends_pure trivial
    | some r => exact unchanged _ (atomic_decrement family keep r w)
  | newStr | newText => exact unchanged _ (atomic_allocBuffered _ _ w)
  | newList | newSet => exact unchanged _ (ends_nextGrant_bind (atomic_container sound))
  | newDict =>
    exact unchanged _ (ends_nextGrant_bind (ends_nextGrant_bind (atomic_container sound)))
  | listPush r v => exact (failsWith_listPush r v w).map _
  | listPop r => exact unchanged _ (atomic_listPop covered r)
  | listSet r index v => exact unchanged _ (atomic_listSet covered r index v)
  | dictInsert r key v => exact (failsWith_dictInsert sound covered r key v).map _

end Act

/-- The command leaves the active scope, or makes a change that puts no payload into a record by
hand: it counts, allocates or works on a container. -/
def Command.isOrdinary : Command → Bool
  | .update u _ _ => !u.exchangesPayload
  | .popScope _ => true
  | .ask _ _ _ | .setHook _ _ _ | .block _ => false

theorem Bindings.exchangesPayload_update {b : Bindings} {u : WrittenUpdate} {c : Change}
    (read : b.update u = .ok c) : c.exchangesPayload = u.exchangesPayload := by
  cases u with
  | allocate | allocateStatic | pushScope | newStr | newText =>
    cases read
    rfl
  | staticFrom | setPayload | writeRaw | increment | decrement | newList | listPop | newSet =>
    obtain ⟨_, _, read⟩ := bind_eq_ok.mp read
    cases read
    rfl
  | swapPayloads | listPush | listSet | newDict =>
    obtain ⟨_, _, read⟩ := bind_eq_ok.mp read
    obtain ⟨_, _, read⟩ := bind_eq_ok.mp read
    cases read
    rfl
  | dictInsert =>
    obtain ⟨_, _, read⟩ := bind_eq_ok.mp read
    obtain ⟨_, _, read⟩ := bind_eq_ok.mp read
    obtain ⟨_, _, read⟩ := bind_eq_ok.mp read
    cases read
    rfl

namespace Machine

variable {m : Machine} {site : Site} {outcome : Outcome} {rest front : List Task} {t : Task}
  {n : Nat} {e : Error} {policy : Policy}

/-- A change that has been made answers that all went well, whatever it sets off. -/
theorem Completes.finishes {reply : Reply} {closing : List Notice} {answer : Answer}
    (h : Completes rest m n) (sound : m.context.Sound)
    (agenda : m.agenda = front ++ .finish reply closing answer :: rest) :
    (m.steps n).Tells reply.site (.ok answer) := by
  refine h.last (K := (· = .finish reply closing answer)) (P := (·.Tells reply.site (.ok answer)))
    sound agenda rfl ?_
  rintro m t _ running next rfl
  rw [step_eq running next]
  exact Or.inr (Or.inl ⟨tells_deliver _ reply _, rfl⟩)

theorem Returns.step (h : Returns rest m n site outcome) (agenda : m.agenda = t :: rest) :
    ∃ k, n = k + 1 ∧ Returns rest m.step k site outcome := by
  obtain ⟨k, rfl, later⟩ := h.completes.next agenda
  exact ⟨k, rfl, later, h.tells⟩

theorem Returns.of_fail {policy : Policy} {bind : Option String} {err : Error}
    (h : Returns m.agenda (m.fail ⟨site, policy, bind⟩ err) n site outcome) :
    ((m.fail ⟨site, policy, bind⟩ err).steps n).context = m.context ∧ outcome = .error err := by
  obtain rfl := h.completes.eq_zero (agenda_fail m _ err)
  refine ⟨context_fail m _ err, ?_⟩
  cases policy with
  | checked => exact h.tells.unique (m.tells_deliver ⟨site, .checked, bind⟩ (.error err))
  | strict => cases h.completes.running

/-- All that differs from the context of `m` is room that the next change was to fill. -/
def Leaves (m : Machine) (e : Error) (cx : Context) : Prop :=
  cx = m.context ∨ ∃ c ∈ m.change?, c.Enlarges m.context cx ∨ c.Strains m.context (m.memory 0) e cx

theorem leaves_update {u : WrittenUpdate} {bind : Option String} (sound : m.context.Sound)
    (covered : m.context.Covered) (running : m.fault = none)
    (agenda : m.agenda = .perform site (.update u policy bind) :: rest)
    (plain : u.exchangesPayload = false) (h : Returns rest m.step n site (.error e)) :
    m.Leaves e (m.step.steps n).context := by
  have after := sound_step sound
  revert h after
  rw [step_eq running agenda]
  unfold execute perform
  dsimp only
  cases read : m.bindings.update u with
  | error f => exact fun h _ => absurd h.completes.running (Option.some_ne_none f)
  | ok c =>
    rw [← Bindings.exchangesPayload_update read] at plain
    apply act_cases (m := { m with agenda := rest }) (Q := fun m' =>
      Returns rest m' n site (.error e) → m'.context.Sound → m.Leaves e (m'.steps n).context)
      (Act.failsWith_change c plain sound covered)
    · intro err w _ left h _
      obtain ⟨same, answer⟩ := Returns.of_fail (m := settle { m with agenda := rest } w) h
      cases answer
      rw [same]
      have change : m.change? = some c := by
        rw [change?_eq running agenda, Task.change?, read]
        rfl
      exact Or.imp_right (fun roomier => ⟨c, change, roomier⟩) left
    · intro effect w _ _ h after
      cases (h.completes.finishes after (List.append_assoc _ _ _)).unique h.tells

theorem leaves_popScope (sound : m.context.Sound) (running : m.fault = none)
    (agenda : m.agenda = .perform site (.popScope policy) :: rest)
    (hooks : m.step.HooksBalanced n) (h : Returns rest m.step n site (.error e)) :
    m.Leaves e (m.step.steps n).context := by
  by_cases root : m.context.current = rootScope
  · have failing :
        m.step = fail { m with agenda := rest } ⟨site, policy, none⟩ .scopeUnderflow := by
      rw [step_eq running agenda]
      exact if_pos root
    rw [failing] at h ⊢
    exact Or.inl (Returns.of_fail (m := { m with agenda := rest }) h).1
  · have popping := step_of_popScope running agenda root
    have level : m.step.depth = m.depth := by
      rw [popping]
      rfl
    obtain ⟨refs, k, rfl, exited⟩ := h.completes.exited (sound_step sound)
      (congrArg Machine.agenda popping) AfterExit.noConfusion
      (level ▸ sound.two_le_depth root) hooks
    obtain ⟨before, answered⟩ := exited.answered (sound_step sound)
    have tells := h.tells
    rw [answered] at tells
    cases (before.tells_deliver ⟨site, policy, none⟩ (.ok .done)).unique tells

/-- A command that answers with an error, at whatever moment of a program, leaves the context
exactly as it was, but that the list or the dict that it was to add to may have doubled its room. In
a dict, it may be one half that has, if memory has been refused for the other half now or before. -/
theorem atomicity {c : Command} (reached : m.context.Reached) (covered : m.context.Covered)
    (agenda : m.agenda = .perform site c :: rest) (ordinary : c.isOrdinary = true)
    (hooks : m.HooksBalanced n) (fails : Returns rest m n site (.error e)) :
    (m.steps n).context = m.context ∨
      ∃ change ∈ m.change?, change.Enlarges m.context (m.steps n).context ∨
        change.Strains m.context (m.memory 0) e (m.steps n).context := by
  have sound := reached.sound
  have running := fails.completes.running
  obtain ⟨k, rfl, later⟩ := fails.step agenda
  cases c with
  | update u policy bind =>
    exact leaves_update sound covered running agenda (Bool.not_eq_true' _ ▸ ordinary) later
  | popScope policy => exact leaves_popScope sound running agenda hooks.tail later
  | ask | setHook | block => cases ordinary

/-- A list is full, and the record that is to be pushed onto it waits to be destroyed. -/
def refusal : Machine :=
  (start {} .ample [.update (.newList .object []) .strict none, .update (.newStr []) .strict none,
    .update (.listPush (.ref ⟨2, 0⟩) (.object (.ref ⟨3, 0⟩))) .strict none,
    .update (.newStr []) .strict none, .update .pushScope .strict none,
    .update (.decrement .heap false (.ref ⟨4, 0⟩)) .strict none,
    .update (.listPush (.ref ⟨2, 0⟩) (.object (.ref ⟨4, 0⟩))) .checked none]).steps 12

theorem atomicity_refusal :
    Returns [] refusal 1 .program (.error (.pendingResurrection 4)) ∧
    refusal.context.list ⟨2, 0⟩ = .ok ⟨.object, [.object (some ⟨3, 0⟩)], 1⟩ ∧
    refusal.step.context.list ⟨2, 0⟩ = .ok ⟨.object, [.object (some ⟨3, 0⟩)], 2⟩ ∧
    ((refusal.steps 1).context = refusal.context ∨
      ∃ change ∈ refusal.change?, change.Enlarges refusal.context (refusal.steps 1).context ∨
        change.Strains refusal.context (refusal.memory 0) (.pendingResurrection 4)
          (refusal.steps 1).context) := by
  have reached : refusal.context.Reached := ⟨_, (Reachable.start _ _ _).steps 12, rfl⟩
  have returns : Returns [] refusal 1 .program (.error (.pendingResurrection 4)) :=
    ⟨.step (List.append_nil _).symm rfl (.done rfl rfl), _, _, rfl, .answered _ _⟩
  have hooks : refusal.HooksBalanced 1 := hooksBalanced_of_lengths (by decide)
  exact ⟨returns, by decide, by decide, atomicity reached (by decide) rfl rfl hooks returns⟩

end Machine

end ScopedHeap
