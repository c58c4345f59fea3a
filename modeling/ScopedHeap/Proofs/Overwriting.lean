import ScopedHeap.Proofs.Insertion

/-!
# Overwriting a slot

A slot of a list, or the value of an entry of a dict, may be overwritten. The new slot is counted
before the old one is given up. So the record that it refers to outlives whatever the old slot takes
along, even if nothing but the old slot kept it alive, and where both are the same nothing happens
at all. One count moves from the record of the old slot to that of the new one (`Act.ends_replace`),
and when the cascade is over, all that slots refer to is counted as before (`Machine.overwriting`).
-/
namespace ScopedHeap

/-- The change puts `v` into the place of a slot of the container `r`: under an index of a list, or
under a key that a dict has. -/
inductive Update.Replaces (cx : Context) (r : Ref) (v : Slot) : Change → Prop
  | list (index : Int) : Replaces cx r v (.listSet r index v)
  | dict {key : Slot} {i : Nat} (found : cx.dictFindKey r key = .ok (some i)) :
      Replaces cx r v (.dictInsert r key v)

/-- The change puts `v` into the place of `old`, and what the container `r` holds then is `q`. -/
inductive Update.Overwrites (cx : Context) (r : Ref) (v : Slot) : Change → Slot → Payload → Prop
  | list {l : SlotList} {index : Int} {i : Nat} {old : Slot} (list : cx.list r = .ok l)
      (position : l.position index = .ok i) (before : l.items[i]? = some old) :
      Overwrites cx r v (.listSet r index v) old (.list (l.replace i v))
  | dict {d : SlotDict} {key : Slot} {i : Nat} {old : Slot} (dict : cx.dict r = .ok d)
      (found : cx.dictFindKey r key = .ok (some i)) (before : d.values.items[i]? = some old) :
      Overwrites cx r v (.dictInsert r key v) old (.dict { d with values := d.values.replace i v })

theorem Update.Overwrites.mem_slots {cx : Context} {r : Ref} {v old : Slot} {q : Payload}
    {c : Change} (h : c.Overwrites cx r v old q) : v ∈ q.slots := by
  cases h with
  | list list position before =>
    exact List.mem_set (List.getElem?_eq_some_iff.mp before).1 v
  | dict dict found before =>
    exact List.mem_append_right _ (List.mem_set (List.getElem?_eq_some_iff.mp before).1 v)

theorem SlotList.replace_self {l : SlotList} {i : Nat} {v : Slot} (h : l.items[i]? = some v) :
    l.replace i v = l := by
  obtain ⟨lt, rfl⟩ := List.getElem?_eq_some_iff.mp h
  rw [replace, List.set_getElem_self]

namespace Table

variable {t : Table} {refs : List Ref} {x : Ref}

theorem count_raiseAll (found : ∀ r ∈ refs, (t.find? r).isSome = true)
    (counted : t.isStatic x = false) : (t.raiseAll refs).count x = t.count x + refs.count x := by
  rw [count, find?_raiseAll found, count]
  cases hx : t.find? x with
  | none =>
    have absent : x ∉ refs := by
      intro mem
      have there := found x mem
      rw [hx] at there
      cases there
    rw [List.count_eq_zero.mpr absent]
    rfl
  | some record =>
    rw [isStatic_eq_false hx] at counted
    rw [Option.map_some, Option.elim_some, Option.elim_some, Record.raised, if_neg counted]
    rfl

end Table

namespace Context

variable {cx cx' : Context} {r x : Ref} {record : Record} {v old : Slot} {q : Payload}

theorem Decrement.count_eq {keep : Bool} {doomed : Option Doomed}
    (h : cx.Decrement .heap keep r (.ok doomed) cx') (sound : cx.Sound)
    (counted : cx'.table.isStatic x = false) :
    cx'.table.count x + [r].count x = cx.table.count x := by
  have split : ∀ n m : Nat, cx.table.count r = m + 1 → n = (if x = r then m else cx.table.count x) →
      n + [r].count x = cx.table.count x := by
    intro n m last hn
    by_cases e : x = r
    · rw [hn, if_pos e, e, last, List.count_singleton_self]
    · rw [hn, if_neg e, List.count_singleton, if_neg (by simpa using Ne.symm e)]
      rfl
  cases h with
  | ignored found untracked =>
    rw [← Bool.not_eq_true, Act.tracks_heap, not_not, ← Table.isStatic_of_find? found] at untracked
    have hx : x ≠ r := by
      rintro rfl
      cases untracked.symm.trans counted
    rw [List.count_singleton, if_neg (by simpa using Ne.symm hx)]
    rfl
  | lowered found tracked count =>
    exact split _ _ ((Table.count_of_find? found).trans count) (Table.count_setRefcount found _ x)
  | destroyed found tracked last gives inner removed =>
    apply split _ 0 ((Table.count_of_find? found).trans last)
    rw [(sound.removed_of_last found removed).1.count_eq, Table.count_detach,
      Table.count_setRefcount found]
    split <;> rfl
  | deferred found tracked last =>
    apply split _ 0 ((Table.count_of_find? found).trans last)
    rw [Table.count_setState, Table.count_detach, Table.count_setRefcount found]

/-- One count has moved from the record of `old` to the record of `v`, static ones apart. -/
def Shifts (cx : Context) (old v : Slot) (cx' : Context) : Prop :=
  ∀ x, cx'.table.isStatic x = false →
    cx'.table.count x + ([old].filterMap Slot.ref?).count x =
      cx.table.count x + ([v].filterMap Slot.ref?).count x

theorem Covered.held (h : cx.Covered) (found : cx.table.find? r = some record)
    (mem : x ∈ record.payload.refs) : cx.table.Held x := by
  obtain ⟨target, there, _, enough⟩ := h r record found x mem
  have pos := slotCount_pos found mem
  exact ⟨target, there, enough.imp_right (Nat.lt_of_lt_of_le pos)⟩

theorem Backed.covered {refs : List Ref} (h : cx.Backed refs) : cx.Covered := by
  intro r record found x mem
  have pos := slotCount_pos found mem
  obtain ⟨target, there⟩ := Option.isSome_iff_exists.mp (h.isSome (x := x) (by omega))
  have shown := Table.bare_of_find? there
  by_cases static : target.header.creationScope = staticScope
  · refine ⟨target, there, ?_, Or.inl static⟩
    intro pending
    have state := (h.sound.proper x _ shown).static.mpr static
    rw [Record.state_core, pending] at state
    cases state
  · have enough := h.enough x ((Table.isStatic_eq_false there).mpr static)
    rw [Table.count_of_find? there] at enough
    refine ⟨target, there, ?_, Or.inr (by omega)⟩
    intro pending
    have zero := h.sound.refcount_of_pending shown pending
    rw [Record.refcount_core] at zero
    omega

/-- What overwriting `old` by `v` in the container `r` has come to in the end. -/
structure Overwritten (cx : Context) (r : Ref) (v old : Slot) (q : Payload) (cx' : Context) :
    Prop where
  payload : cx'.table.payload? r = some q
  present : ∀ x, v.ref? = some x →
    ∃ record, cx'.table.find? x = some record ∧ record.header.state ≠ .pending
  covered : cx'.Covered
  /-- Counts that were not for slots are still there. -/
  surplus : ∀ x, cx'.table.isStatic x = false →
    cx.table.count x + cx'.table.slotCount x ≤ cx'.table.count x + cx.table.slotCount x
  same : v = old → cx' = cx

/-- Counts of `x` that are not for slots may be taken as references of a client. -/
theorem Covered.backed_replicate (h : cx.Covered) (sound : cx.Sound) (unscripted : cx.Unscripted)
    (x : Ref) : cx.Backed (List.replicate (cx.table.count x - cx.table.slotCount x) x) := by
  refine ⟨sound, unscripted, ?_⟩
  intro y counted
  have enough := h.slotCount_le_count counted
  rw [List.count_replicate]
  split
  · rename_i same
    obtain rfl := beq_iff_eq.mp same
    omega
  · exact enough

/-- Where no cascade takes along what a client holds, the container has its new slot. -/
theorem overwritten_of_backed {c : Change} (overwrites : c.Overwrites cx r v old q)
    (puts : cx.Puts r q cx') (owned : cx'.Backed [r])
    (survives : ∀ x,
      cx'.Backed (List.replicate (cx.table.count x - cx.table.slotCount x) x))
    (same : v = old → cx' = cx) : cx.Overwritten r v old q cx' := by
  obtain ⟨record, found⟩ := Option.isSome_iff_exists.mp
    (owned.isSome (x := r) (by rw [List.count_singleton_self]; omega))
  have payload : record.payload = q := by
    have put := puts r _ (Table.payload?_of_find? found)
    rwa [if_pos rfl] at put
  refine ⟨?_, ?_, owned.covered, ?_, same⟩
  · rw [Table.payload?_of_find? found, payload]
  · intro x hx
    have mem : x ∈ record.payload.refs := by
      rw [payload]
      exact List.mem_filterMap.mpr ⟨v, overwrites.mem_slots, hx⟩
    obtain ⟨target, there, awake, _⟩ := owned.covered r record found x mem
    exact ⟨target, there, awake⟩
  · intro x counted
    have enough := (survives x).enough x counted
    rw [List.count_replicate_self] at enough
    omega

end Context

namespace Act

open Context

variable {w : Workspace} {r : Ref} {v old : Slot} {q : Payload} {record : Record}
  {F : Payload → Except Error (Option Slot × Payload)}

theorem ends_dropSlot_count (old : Slot) (w : Workspace) (sound : w.context.Sound) :
    (dropSlot old).Ends w (Either (fun _ cx => ∀ x, cx.table.isStatic x = false →
      cx.table.count x + ([old].filterMap Slot.ref?).count x = w.context.table.count x)
      fun _ => True) := by
  unfold dropSlot
  cases hold : old.ref? with
  | none =>
    refine ends_pure fun x _ => ?_
    rw [List.filterMap_cons_none hold]
    rfl
  | some r =>
    rw [List.filterMap_cons_some hold, List.filterMap_nil]
    apply (ends_decrement .heap false r w).mono
    intro a cx h
    cases a with
    | error => trivial
    | ok => exact fun x => h.count_eq sound

/-- The slot that comes in is the one that goes out. Its count is not the last one, so that giving
it up leads back to where it was taken in. -/
theorem ends_dropSlot_same {w' : Workspace} (covered : w.context.Covered)
    (found : w.context.table.find? r = some record) (mem : v ∈ record.payload.slots)
    (hw : w'.context = { w.context with
      table := (w.context.table.raiseAll ([v].filterMap Slot.ref?)).modifyAt r.index
        (Record.setPayload record.payload) }) :
    (dropSlot v).Ends w' fun a cx => a = .ok none ∧ cx = w.context := by
  have restored : w.context.table.modifyAt r.index (Record.setPayload record.payload) =
      w.context.table := congrArg Context.table (restore_eq found)
  have table : w'.context.table = w.context.table.raiseAll ([v].filterMap Slot.ref?) := by
    rw [hw, ← Table.raiseAll_setPayload, restored]
  have held : ∀ x, v.ref? = some x → w.context.table.Held x :=
    fun x hx => covered.held found (List.mem_filterMap.mpr ⟨v, mem, hx⟩)
  apply (ends_dropSlot_raise table held).mono
  rintro a cx ⟨none, rfl⟩
  rw [hw]
  exact ⟨none, rfl⟩

/-- A slot takes the place of another, which is given up afterwards: one count moves, and if both
are the same nothing changes. -/
theorem ends_replace {o : Option Slot} (sound : w.context.Sound) (covered : w.context.Covered)
    (found : w.context.table.find? r = some record)
    (passed : F record.payload = .ok (o, q)) (before : o = some old) (paired : q.Paired)
    (mem : old ∈ record.payload.slots) (same : v = old → q = record.payload) :
    (retain [v] >>= fun _ => updatePayload r F >>= fun old =>
      old.elim (pure none) dropSlot).Ends w (Either
        (fun doomed cx => w.context.Puts r q cx ∧ w.context.Shifts old v cx ∧
          (v = old → doomed = none ∧ cx = w.context)) fun _ => True) := by
  subst before
  apply ends_intake found passed (fun _ => trivial)
  intro w₁ can hw₁
  have there : ∀ x ∈ [v].filterMap Slot.ref?, (w.context.table.find? x).isSome = true :=
    fun x hx => (can x hx).isSome
  have after : (w.context.table.raiseAll ([v].filterMap Slot.ref?)).find? r =
      some (record.raised (([v].filterMap Slot.ref?).count r)) := by
    rw [Table.find?_raiseAll there, found]
    rfl
  obtain ⟨ds, path⟩ : ∃ ds, Path w.context ds w₁.context := by
    rw [hw₁]
    exact ⟨_, (path_raiseAll can).trans (.single (.store after paired))⟩
  have put : w.context.Puts r q w₁.context := by
    rw [hw₁]
    exact (inherits_raiseAll can).puts (puts_of_store after)
  have counts : ∀ x, w₁.context.table.isStatic x = false → w₁.context.table.count x =
      w.context.table.count x + ([v].filterMap Slot.ref?).count x := by
    intro x counted
    rw [← Table.count_raiseAll there (path.isStatic_eq_false sound counted), hw₁,
      Table.count_setPayload]
  have settled : (dropSlot old).Ends w₁ (Either
      (fun _ cx => w.context.Puts r q cx ∧ w.context.Shifts old v cx) fun _ => True) := by
    have sound₁ := path.sound sound
    refine ((ends_dropSlot_inherits old w₁ sound₁).and
      ((ends_dropSlot old w₁).and (ends_dropSlot_count old w₁ sound₁))).mono ?_
    rintro (e | doomed) cx ⟨inherits, drops, lowers⟩
    · trivial
    · obtain ⟨es, rest, _⟩ := drops
      refine ⟨put.inherits inherits, fun x counted => ?_⟩
      rw [lowers x counted]
      exact counts x (rest.isStatic_eq_false sound₁ counted)
  by_cases e : v = old
  · subst e
    rw [same rfl] at hw₁
    apply (settled.and (ends_dropSlot_same covered found mem hw₁)).mono
    rintro (e | doomed) cx ⟨moved, none, stays⟩
    · trivial
    · exact ⟨moved.1, moved.2, fun _ => ⟨Except.ok.inj none, stays⟩⟩
  · apply settled.mono
    rintro (e | doomed) cx moved
    · trivial
    · exact ⟨moved.1, moved.2, fun same => absurd same e⟩

theorem ends_listSet_overwrites (r : Ref) (index : Int) (v : Slot) (w : Workspace)
    (sound : w.context.Sound) (covered : w.context.Covered) :
    (listSet r index v).Ends w (Either (fun doomed cx => ∃ old q,
      Update.Overwrites w.context r v (.listSet r index v) old q ∧ w.context.Puts r q cx ∧
        w.context.Shifts old v cx ∧ (v = old → doomed = none ∧ cx = w.context)) fun _ => True) := by
  unfold listSet
  apply ends_read_bind (fun _ _ => trivial)
  intro i hi
  obtain ⟨l, list, hi⟩ := bind_eq_ok.mp hi
  obtain ⟨_, _, hi⟩ := bind_eq_ok.mp hi
  obtain ⟨record, found, payload⟩ := list_eq_ok list
  obtain ⟨old, before⟩ := SlotList.exists_item_of_position hi
  apply (ends_replace (q := .list (l.replace i v)) sound covered found
    (onList_eq_ok.mpr ⟨l, _, payload, rfl, rfl⟩) before trivial ?_ ?_).mono
  · rintro (e | doomed) cx replaced
    · trivial
    · exact ⟨old, _, .list list hi before, replaced⟩
  · rw [payload]
    exact List.mem_of_getElem? before
  · rintro rfl
    rw [payload, SlotList.replace_self before]

theorem ends_dictInsert_overwrites (r : Ref) {key : Slot} {i : Nat} (v : Slot) (w : Workspace)
    (sound : w.context.Sound) (covered : w.context.Covered)
    (known : w.context.dictFindKey r key = .ok (some i)) :
    (dictInsert r key v).Ends w (Either (fun doomed cx => ∃ old q,
      Update.Overwrites w.context r v (.dictInsert r key v) old q ∧ w.context.Puts r q cx ∧
        w.context.Shifts old v cx ∧ (v = old → doomed = none ∧ cx = w.context)) fun _ => True) := by
  unfold dictInsert
  apply ends_read_bind (fun _ _ => trivial)
  intro position h
  obtain ⟨d, dict, h⟩ := bind_eq_ok.mp h
  obtain ⟨_, _, h⟩ := bind_eq_ok.mp h
  obtain ⟨record, found, payload⟩ := dict_eq_ok dict
  rw [dictFindKey_of_dict dict] at known
  obtain rfl := Except.ok.inj (h.symm.trans known)
  have paired := sound.paired_dict found payload
  have within := Table.lt_length_of_search known
  rw [paired.length] at within
  obtain ⟨old, before⟩ : ∃ old, d.values.items[i]? = some old :=
    ⟨_, List.getElem?_eq_getElem within⟩
  apply (ends_replace sound covered found (onDict_eq_ok.mpr ⟨d, _, payload, rfl, rfl⟩) before
    ?_ ?_ ?_).mono
  · rintro (e | doomed) cx replaced
    · trivial
    · exact ⟨old, _, .dict dict ((dictFindKey_of_dict dict key).trans known) before, replaced⟩
  · exact paired.replace i v
  · rw [payload]
    exact List.mem_append_right _ (List.mem_of_getElem? before)
  · rintro rfl
    rw [payload, SlotList.replace_self before]

theorem ends_change_overwrites {c : Change} (w : Workspace) (sound : w.context.Sound)
    (covered : w.context.Covered) (replaces : c.Replaces w.context r v) :
    (Act.change c).Ends w (Either (fun effect cx =>
      (∃ ds, Path w.context ds cx ∧ Conduct ds effect.doomed [] []) ∧ ∃ old q,
        c.Overwrites w.context r v old q ∧ w.context.Puts r q cx ∧ w.context.Shifts old v cx ∧
          (v = old → effect.doomed = none ∧ cx = w.context)) fun _ => True) := by
  cases replaces with
  | list index =>
    refine ((settles_listSet r index v w sound).and
      (ends_listSet_overwrites r index v w sound covered)).map _ (fun _ _ _ => trivial) ?_
    rintro doomed cx ⟨⟨ds, path, conduct, _⟩, overwrites⟩
    exact ⟨⟨ds, path, conduct⟩, overwrites⟩
  | @dict key i found =>
    refine ((settles_dictInsert r key v w sound).and
      (ends_dictInsert_overwrites r v w sound covered found)).map _ (fun _ _ _ => trivial) ?_
    rintro doomed cx ⟨⟨ds, path, conduct, _⟩, overwrites⟩
    exact ⟨⟨ds, path, conduct⟩, overwrites⟩

end Act

namespace Machine

open Context

variable {m : Machine} {site : Site} {rest : List Task} {n : Nat} {policy : Policy}
  {bind : Option String} {u : WrittenUpdate} {answer : Answer}

/-- A change that spends nothing but what the record that it dooms held keeps all references of
clients backed, until all that it sets off is over. -/
theorem Returns.backed {c : Change} {P : Effect → Context → Prop} (sound : m.context.Sound)
    (agenda : m.agenda = .perform site (.update u policy bind) :: rest)
    (read : m.bindings.update u = .ok c)
    (ends : (Act.change c).Ends m.workspace (Act.Either (fun effect cx =>
      (∃ ds, Path m.context ds cx ∧ Conduct ds effect.doomed [] []) ∧ P effect cx) fun _ => True))
    (h : Returns rest m n site (.ok answer)) :
    ∃ effect, P effect m.step.context ∧
      (effect.doomed = none → (m.steps n).context = m.step.context) ∧
      ∀ refs, m.context.Backed refs →
        (m.steps n).context.Backed refs ∧ m.step.context.Inherits (m.steps n).context := by
  have running := h.completes.running
  obtain ⟨l, rfl, later⟩ := h.step agenda
  obtain ⟨effect, ⟨⟨ds, path, conduct⟩, holds⟩, next⟩ := later.changed agenda read ends running
  obtain ⟨j, cascade, same⟩ := later.completes.finished (sound_step sound) next
  rw [steps, same]
  refine ⟨effect, holds, ?_, ?_⟩
  · intro unharmed
    rw [unharmed, Option.elim_none, List.nil_append] at next
    rw [cascade.eq_zero next]
    rfl
  · intro refs backed
    obtain ⟨releases, after⟩ := backed.path (s := refs) path conduct fun x => Nat.le_refl _
    exact cascade.backed next releases after

/-- Where what slots refer to is there and counted, and no hook is a script, a slot of a container
that a client holds can be overwritten. The container has the new slot in the place of the old one,
one count has moved, and what slots refer to, the new slot included, is still there and counted,
whatever is destroyed along with the old one. Overwriting a slot by itself changes nothing. -/
theorem overwriting {c : Change} {r : Ref} {v : Slot} (reached : m.context.Reached)
    (covered : m.context.Covered) (unscripted : m.context.Unscripted)
    (agenda : m.agenda = .perform site (.update u policy bind) :: rest)
    (read : m.bindings.update u = .ok c) (replaces : c.Replaces m.context r v)
    (owned : m.context.table.slotCount r < m.context.table.count r)
    (returns : Returns rest m n site (.ok answer)) :
    ∃ old q, c.Overwrites m.context r v old q ∧ m.context.Shifts old v m.step.context ∧
      m.context.Overwritten r v old q (m.steps n).context := by
  have sound := reached.sound
  obtain ⟨effect, ⟨old, q, overwrites, puts, shifts, same⟩, still, backed⟩ := returns.backed sound
    agenda read (Act.ends_change_overwrites m.workspace sound covered replaces)
  obtain ⟨survivor, inherits⟩ := backed [r] (covered.backed sound unscripted owned)
  refine ⟨old, q, overwrites, shifts,
    overwritten_of_backed overwrites (puts.inherits inherits) survivor ?_ ?_⟩
  · exact fun x => (backed _ (covered.backed_replicate sound unscripted x)).1
  · intro e
    obtain ⟨unharmed, unchanged⟩ := same e
    exact (still unharmed).trans unchanged

/-- A list holds another list, which nothing else holds and which alone holds a string. The string
is to take the place of that other list. -/
def promotion : Machine :=
  (start {} .ample [.update (.newStr [97]) .strict none,
    .update (.newList .object [.object (.ref ⟨2, 0⟩)]) .strict none,
    .update (.newList .object [.object .null, .object (.ref ⟨3, 0⟩)]) .strict none,
    .update (.decrement .heap false (.ref ⟨2, 0⟩)) .strict none,
    .update (.decrement .heap false (.ref ⟨3, 0⟩)) .strict none,
    .update (.listSet (.ref ⟨4, 0⟩) (-1) (.object (.ref ⟨2, 0⟩))) .checked none]).steps 10

theorem overwriting_promotion : promotion.context.Covered ∧ promotion.context.Unscripted ∧
    ∃ n, Returns [] promotion n .program (.ok .done) ∧
      (promotion.steps n).context.table.find? ⟨3, 0⟩ = none ∧
      ∃ old q, Update.Overwrites promotion.context ⟨4, 0⟩ (.object (some ⟨2, 0⟩))
          (.listSet ⟨4, 0⟩ (-1) (.object (some ⟨2, 0⟩))) old q ∧
        promotion.context.Shifts old (.object (some ⟨2, 0⟩)) promotion.step.context ∧
        promotion.context.Overwritten ⟨4, 0⟩ (.object (some ⟨2, 0⟩)) old q
          (promotion.steps n).context := by
  have reachable : promotion.Reachable := (Reachable.start _ _ _).steps 10
  have covered : promotion.context.Covered := by decide +kernel
  have unscripted : promotion.context.Unscripted := by decide +kernel
  obtain ⟨n, completes, last⟩ := completes_of_running reachable.sound
    (show promotion.run.fault = none by decide +kernel)
  have returns : Returns [] promotion n .program (.ok .done) := by
    refine ⟨completes, ?_⟩
    rw [last]
    exact ⟨_, _, rfl, .answered _ _⟩
  have gone : (promotion.steps n).context.table.find? ⟨3, 0⟩ = none := by
    rw [last]
    decide +kernel
  exact ⟨covered, unscripted, n, returns, gone,
    overwriting ⟨_, reachable, rfl⟩ covered unscripted rfl rfl (.list (-1)) (by decide +kernel)
      returns⟩

end Machine

end ScopedHeap
