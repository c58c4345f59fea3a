import ScopedHeap.Proofs.Comparison
import ScopedHeap.Proofs.Intake
import ScopedHeap.Proofs.Layout
import ScopedHeap.Proofs.Survival

/-!
# Insertion into a dict

An insertion puts its value in the place of the old one or adds an entry at the end, and a value
that has been replaced may take other records with it. `Context.Entered` says what the insertion
makes of the dict. The records that its keys refer to outlive the cascade, for slots refer to them,
so comparisons with the keys give the answers that they gave before. Hence the dict obeys the laws
of a map (`Context.Entered.assigns`): a lookup of the key gives the value, and a lookup of any other
key gives what it gave before.
-/
namespace ScopedHeap

namespace Table

variable {t u : Table} {v k : Slot} {items more : List Slot} {i : Nat} {o : Option Nat}

theorem scan_congr (h : t.scan v items = .ok o)
    (keeps : ∀ w ∈ items, ∀ x, t.slotEq w v = .ok x → u.slotEq w v = .ok x) :
    u.scan v items = .ok o := by
  cases o with
  | none =>
    rw [scan_eq_none] at h ⊢
    exact fun w hw => keeps w hw _ (h w hw)
  | some i =>
    rw [scan_eq_some] at h ⊢
    obtain ⟨⟨w, hw, same⟩, before⟩ := h
    refine ⟨⟨w, hw, keeps w (List.mem_of_getElem? hw) _ same⟩, ?_⟩
    exact fun j hj w hw => keeps w (List.mem_of_getElem? hw) _ (before j hj w hw)

theorem scan_append (h : t.scan v items = .ok (some i)) :
    t.scan v (items ++ more) = .ok (some i) := by
  rw [scan_eq_some] at h ⊢
  obtain ⟨⟨w, hw, same⟩, before⟩ := h
  have lt : i < items.length := (List.getElem?_eq_some_iff.mp hw).1
  refine ⟨⟨w, (List.getElem?_append_left lt).trans hw, same⟩, ?_⟩
  intro j hj w hw
  rw [List.getElem?_append_left (hj.trans lt)] at hw
  exact before j hj w hw

theorem scan_concat (h : t.scan v items = .ok none) (same : t.slotEq k v = .ok true) :
    t.scan v (items ++ [k]) = .ok (some items.length) := by
  rw [scan_eq_none] at h
  refine scan_eq_some.mpr ⟨⟨k, List.getElem?_concat_length, same⟩, ?_⟩
  intro j hj w hw
  rw [List.getElem?_append_left hj] at hw
  exact h w (List.mem_of_getElem? hw)

end Table

namespace Context

variable {cx cx' : Context} {r x : Ref} {d e : SlotDict} {k k' v w : Slot}

theorem dictFindKey_of_dict (h : cx.dict r = .ok d) (k : Slot) :
    cx.dictFindKey r k = cx.table.search d.keys k := by
  rw [dictFindKey, h]
  rfl

theorem dictAt_of_dict (h : cx.dict r = .ok d) (k : Slot) : cx.dictAt r k =
    cx.table.search d.keys k >>= fun o =>
      o.elim (.error .keyNotFound) fun i => d.values.slotAt i := by
  rw [dictAt, dictFindKey_of_dict h, h]
  cases cx.table.search d.keys k with
  | error e => rfl
  | ok o => cases o <;> rfl

theorem dictAt_eq_ok (h : cx.dict r = .ok d) : cx.dictAt r k = .ok w ↔ k.kind = d.keys.kind ∧
    ∃ i, cx.table.scan k d.keys.items = .ok (some i) ∧ d.values.items[i]? = some w := by
  have slotAt : ∀ i : Nat, d.values.slotAt i = .ok w ↔ d.values.items[i]? = some w := by
    intro i
    rw [SlotList.slotAt_natCast]
    cases d.values.items[i]? <;> simp
  rw [dictAt_of_dict h, bind_eq_ok, Option.exists]
  simp [Table.search_eq_ok, slotAt, and_assoc]

/-- A key is not found only after it has been compared with all keys. -/
theorem dictAt_eq_keyNotFound (h : cx.dict r = .ok d) : cx.dictAt r k = .error .keyNotFound ↔
    k.kind = d.keys.kind ∧ cx.table.scan k d.keys.items = .ok none := by
  have slotAt : ∀ i : Nat, d.values.slotAt i ≠ .error .keyNotFound := by
    intro i
    rw [SlotList.slotAt_natCast]
    cases d.values.items[i]? <;> simp
  rw [dictAt_of_dict h, bind_eq_error, Option.exists]
  simp [Table.search_eq_ok, slotAt, Table.search_ne_missing (e := .keyNotFound) rfl]

/-- What an insertion that goes through makes of the dict `d`. -/
inductive Entered (cx : Context) (k v : Slot) (d : SlotDict) : SlotDict → Prop
  | replaced {i : Nat} (found : cx.table.search d.keys k = .ok (some i)) :
      Entered cx k v d { d with values := d.values.replace i v }
  | appended {e : SlotDict} (absent : cx.table.search d.keys k = .ok none)
      (grows : d.Grows cx.listLimit e) :
      Entered cx k v d ⟨e.keys.push k, e.values.push v⟩

/-- The record that the slot refers to, if any, is there. -/
def Resolves (cx : Context) (v : Slot) : Prop :=
  ∀ r, v.ref? = some r → (cx.table.find? r).isSome = true

/-- In `cx'` the dict `r` has the value `v` under the key `k`, and is otherwise the map that it was
in `cx`. -/
structure Assigns (cx : Context) (r : Ref) (k v : Slot) (cx' : Context) : Prop where
  length : ∃ before after, cx.dict r = .ok before ∧ cx'.dict r = .ok after ∧
    (cx.dictFindKey r k = .ok none → after.length = before.length + 1) ∧
    (cx.dictFindKey r k ≠ .ok none → after.length = before.length)
  value : cx'.Resolves k → cx'.dictAt r k = .ok v
  others : ∀ k', cx.table.slotEq k k' = .ok false → cx'.Resolves k' →
    (∀ w, cx.dictAt r k' = .ok w → cx'.dictAt r k' = .ok w) ∧
    (cx.dictAt r k' = .error .keyNotFound → cx'.dictAt r k' = .error .keyNotFound)

theorem Entered.length_eq (h : cx.Entered k v d e) :
    (cx.table.search d.keys k = .ok none → e.length = d.length + 1) ∧
      (cx.table.search d.keys k ≠ .ok none → e.length = d.length) := by
  cases h with
  | replaced found => simp [found, SlotDict.length]
  | appended absent grows =>
    simp [absent, SlotDict.length, SlotList.length, SlotList.push, grows.1.items]

/-- Where the comparisons with the keys give the same answers as before, the key has the value. -/
theorem Entered.dictAt_self (h : cx.Entered k v d e) (paired : d.Paired)
    (number : ∀ x, k = .float x → x.isNaN = false) (after : cx'.dict r = .ok e)
    (keeps : ∀ u ∈ e.keys.items, ∀ x, cx.table.slotEq u k = .ok x → cx'.table.slotEq u k = .ok x) :
    cx'.dictAt r k = .ok v := by
  rw [dictAt_eq_ok after]
  cases h with
  | @replaced i found =>
    have within := Table.lt_length_of_search found
    rw [paired.length] at within
    obtain ⟨kind, found⟩ := Table.search_eq_ok.mp found
    exact ⟨kind, i, Table.scan_congr found keeps, List.getElem?_set_self within⟩
  | appended absent grows =>
    obtain ⟨kind, absent⟩ := Table.search_eq_ok.mp absent
    simp only [SlotList.push, grows.1.items, grows.2.items, grows.1.kind,
      List.forall_mem_append] at keeps ⊢
    refine ⟨kind, d.keys.length, Table.scan_concat (Table.scan_congr absent keeps.1)
      (Table.slotEq_self number), ?_⟩
    rw [paired.length]
    exact List.getElem?_concat_length

theorem Entered.dictAt_other (h : cx.Entered k v d e) (before : cx.dict r = .ok d)
    (after : cx'.dict r = .ok e) (other : cx.table.slotEq k k' = .ok false)
    (keeps : ∀ u ∈ e.keys.items, ∀ x, cx.table.slotEq u k' = .ok x →
      cx'.table.slotEq u k' = .ok x) :
    (∀ w, cx.dictAt r k' = .ok w → cx'.dictAt r k' = .ok w) ∧
      (cx.dictAt r k' = .error .keyNotFound → cx'.dictAt r k' = .error .keyNotFound) := by
  simp only [dictAt_eq_ok before, dictAt_eq_ok after, dictAt_eq_keyNotFound before,
    dictAt_eq_keyNotFound after]
  cases h with
  | @replaced i found =>
    refine ⟨?_, fun ⟨kind, absent⟩ => ⟨kind, Table.scan_congr absent keeps⟩⟩
    rintro w ⟨kind, j, hit, hw⟩
    refine ⟨kind, j, Table.scan_congr hit keeps, ?_⟩
    -- the key that equals `k'` is not the one whose value has been replaced
    have distinct : i ≠ j := by
      rintro rfl
      obtain ⟨⟨u, hu, same⟩, _⟩ := Table.scan_eq_some.mp (Table.search_eq_ok.mp found).2
      obtain ⟨⟨u', hu', same'⟩, _⟩ := Table.scan_eq_some.mp hit
      rw [hu] at hu'
      cases hu'
      cases other.symm.trans (Table.slotEq_trans (Table.slotEq_symm same) same')
    exact (List.getElem?_set_ne distinct).trans hw
  | appended absent grows =>
    simp only [SlotList.push, grows.1.items, grows.2.items, grows.1.kind,
      List.forall_mem_append] at keeps ⊢
    refine ⟨?_, ?_⟩
    · rintro w ⟨kind, j, hit, hw⟩
      refine ⟨kind, j, Table.scan_append (Table.scan_congr hit keeps.1), ?_⟩
      exact (List.getElem?_append_left (List.getElem?_eq_some_iff.mp hw).1).trans hw
    · rintro ⟨kind, missing⟩
      have unequal := Table.scan_eq_none.mp (Table.scan_congr missing keeps.1)
      have last := keeps.2 k (List.mem_singleton_self k) _ other
      refine ⟨kind, Table.scan_eq_none.mpr (List.forall_mem_append.mpr ⟨unequal, ?_⟩)⟩
      exact List.forall_mem_singleton.mpr last

/-- Comparisons give the same answers when nothing but a dict has a new payload and the records that
the slots refer to are still there. -/
theorem Puts.slotEq_eq {p : Payload} {a b : Slot} {y : Bool} (puts : cx.Puts r p cx')
    (before : cx.dict r = .ok d) (ha : cx'.Resolves a) (hb : cx'.Resolves b)
    (h : cx.table.slotEq a b = .ok y) : cx'.table.slotEq a b = .ok y := by
  refine Table.slotEq_congr h ?_
  intro x mentioned q hq legible
  obtain ⟨record, found⟩ := Option.isSome_iff_exists.mp (mentioned.elim (ha x) (hb x))
  have there := Table.payload?_of_find? found
  have kept := puts x _ there
  by_cases e : x = r
  · obtain ⟨old, hold, payload⟩ := dict_eq_ok before
    rw [e, Table.payload?_of_find? hold, payload] at hq
    cases hq
    rcases legible with kind | kind <;> cases kind
  · rw [if_neg e, hq] at kept
    rw [there, Option.some.inj kept]

/-- When a cascade is over, an insertion has given the dict of a client its value. -/
theorem Entered.assigns (h : cx.Entered k v d e) (sound : cx.Sound) (before : cx.dict r = .ok d)
    (number : ∀ x, k = .float x → x.isNaN = false) (puts : cx.Puts r (.dict e) cx')
    (backed : cx'.Backed [r]) : cx.Assigns r k v cx' := by
  have paired : d.Paired := by
    obtain ⟨record, found, payload⟩ := dict_eq_ok before
    exact sound.paired_dict found payload
  obtain ⟨record, found⟩ := Option.isSome_iff_exists.mp
    (backed.isSome (x := r) (by rw [List.count_singleton_self]; omega))
  have payload : record.payload = .dict e := by
    have put := puts r _ (Table.payload?_of_find? found)
    rwa [if_pos rfl] at put
  have after : cx'.dict r = .ok e := by
    apply dict_of_payload?
    rw [Table.payload?_of_find? found, payload]
  have keys : ∀ u ∈ e.keys.items, cx'.Resolves u := by
    intro u hu x hx
    have mem : x ∈ record.payload.refs := by
      rw [payload]
      exact List.mem_filterMap.mpr ⟨u, List.mem_append_left _ hu, hx⟩
    have pos := slotCount_pos found mem
    exact backed.isSome (by omega)
  have keeps : ∀ k', cx'.Resolves k' → ∀ u ∈ e.keys.items, ∀ y, cx.table.slotEq u k' = .ok y →
      cx'.table.slotEq u k' = .ok y :=
    fun k' hk u hu y => puts.slotEq_eq before (keys u hu) hk
  refine ⟨⟨d, e, before, after, ?_⟩, fun hk => h.dictAt_self paired number after (keeps k hk), ?_⟩
  · rw [dictFindKey_of_dict before]
    exact h.length_eq
  · exact fun k' other hk => h.dictAt_other before after other (keeps k' hk)

theorem Covered.backed (covered : cx.Covered) (sound : cx.Sound) (unscripted : cx.Unscripted)
    (owned : cx.table.slotCount r < cx.table.count r) : cx.Backed [r] := by
  refine ⟨sound, unscripted, ?_⟩
  intro x counted
  have enough := covered.slotCount_le_count counted
  rw [List.count_singleton]
  split
  · rename_i same
    rw [← beq_iff_eq.mp same]
    exact owned
  · exact enough

end Context

namespace Act

open Context

theorem ends_dictInsert_entered (r : Ref) (k v : Slot) (w : Workspace) (sound : w.context.Sound) :
    (dictInsert r k v).Ends w (Either (fun _ cx => ∃ d e, w.context.dict r = .ok d ∧
      w.context.Entered k v d e ∧ w.context.Puts r (.dict e) cx) fun _ => True) := by
  unfold dictInsert
  apply ends_read_bind (fun _ _ => trivial)
  intro position h
  obtain ⟨d, hd, h⟩ := bind_eq_ok.mp h
  obtain ⟨_, _, h⟩ := bind_eq_ok.mp h
  obtain ⟨record, found, payload⟩ := dict_eq_ok hd
  cases position with
  | some i =>
    apply (ends_dictReplace_puts sound found payload).mono
    intro a cx puts
    cases a with
    | ok => exact ⟨d, _, hd, .replaced h, puts⟩
    | error => trivial
  | none =>
    refine (ends_dictAppend_appends sound found payload).map _ (fun _ _ _ => trivial) ?_
    rintro _ cx ⟨e, grows, puts⟩
    exact ⟨d, _, hd, .appended h grows, puts⟩

/-- An insertion that goes through spends nothing but what the record that it dooms held. -/
theorem ends_change_dictInsert (r : Ref) (k v : Slot) (w : Workspace) (sound : w.context.Sound) :
    (Act.change (.dictInsert r k v)).Ends w (Either
      (fun effect cx => (∃ ds, Path w.context ds cx ∧ Conduct ds effect.doomed [] []) ∧
        ∃ d e, w.context.dict r = .ok d ∧ w.context.Entered k v d e ∧
          w.context.Puts r (.dict e) cx)
      fun _ => True) := by
  refine ((settles_dictInsert r k v w sound).and (ends_dictInsert_entered r k v w sound)).map _
    (fun _ _ _ => trivial) ?_
  rintro doomed cx ⟨⟨ds, path, conduct, _⟩, entered⟩
  exact ⟨⟨ds, path, conduct⟩, entered⟩

end Act

namespace Machine

variable {m : Machine} {site : Site} {rest front : List Task} {n : Nat} {policy : Policy}
  {bind : Option String} {u : WrittenUpdate} {answer : Answer}

/-- A change that is answered without an error has been made, and what it sets off comes next. -/
theorem Returns.changed {c : Change} {P : Except Error Effect → Context → Prop}
    (agenda : m.agenda = .perform site (.update u policy bind) :: rest)
    (read : m.bindings.update u = .ok c) (ends : (Act.change c).Ends m.workspace P)
    (running : m.fault = none) (h : Returns rest m.step n site (.ok answer)) :
    ∃ effect, P (.ok effect) m.step.context ∧ m.step.agenda =
      effect.doomed.elim [] Doomed.tasks ++
        .finish ⟨site, policy, bind⟩ effect.closing effect.answer :: rest := by
  revert h
  rw [step_eq running agenda]
  unfold execute perform
  dsimp only
  rw [read]
  dsimp only
  apply act_cases (m := { m with agenda := rest }) (Q := fun m' =>
    Returns rest m' n site (.ok answer) → ∃ effect, P (.ok effect) m'.context ∧ m'.agenda =
      effect.doomed.elim [] Doomed.tasks ++
        .finish ⟨site, policy, bind⟩ effect.closing effect.answer :: rest) ends
  · intro e w _ _ h
    obtain rfl := h.completes.eq_zero (agenda_fail _ _ _)
    cases policy with
    | checked => cases (tells_deliver _ ⟨site, .checked, bind⟩ (.error e)).unique h.tells
    | strict => cases h.completes.running
  · exact fun effect w _ holds _ => ⟨effect, holds, List.append_assoc _ _ _⟩

/-- The answer is told when all else is done, and telling it changes nothing. -/
theorem Completes.finished {reply : Reply} {closing : List Notice} (h : Completes rest m n)
    (sound : m.context.Sound) (agenda : m.agenda = front ++ .finish reply closing answer :: rest) :
    ∃ k, Completes (.finish reply closing answer :: rest) m k ∧
      (m.steps n).context = (m.steps k).context := by
  have behind : m.agenda = front ++ ([.finish reply closing answer] ++ rest) := agenda
  obtain ⟨a, b, rfl, first, second⟩ := h.split sound behind
  obtain ⟨returns, context⟩ := first.returns
  obtain ⟨k, rfl, last⟩ := second.next first.ended.1
  have next : (m.steps a).step = m.steps (a + 1) := (m.steps_add a 1).symm
  rw [next] at last
  obtain rfl := last.eq_zero returns.completes.ended.1
  exact ⟨a, first, context⟩

/-- Where what slots refer to is there and counted, and no hook is a script, an insertion that
answers without an error into a dict that a client holds obeys the laws of a map, whatever is
destroyed along with the value that it replaces. -/
theorem insertion_assigns {r : Ref} {k v : Slot} (reached : m.context.Reached)
    (covered : m.context.Covered) (unscripted : m.context.Unscripted)
    (agenda : m.agenda = .perform site (.update u policy bind) :: rest)
    (read : m.bindings.update u = .ok (.dictInsert r k v))
    (owned : m.context.table.slotCount r < m.context.table.count r)
    (number : ∀ x, k = .float x → x.isNaN = false)
    (returns : Returns rest m n site (.ok answer)) :
    m.context.Assigns r k v (m.steps n).context := by
  have sound := reached.sound
  have running := returns.completes.running
  obtain ⟨l, rfl, later⟩ := returns.step agenda
  obtain ⟨effect, ⟨⟨ds, path, conduct⟩, d, e, before, entered, puts⟩, next⟩ :=
    later.changed agenda read (Act.ends_change_dictInsert r k v _ sound) running
  obtain ⟨releases, backed⟩ := (covered.backed sound unscripted owned).path (s := [r]) path conduct
    fun x => Nat.le_refl _
  obtain ⟨j, cascade, same⟩ := later.completes.finished (sound_step sound) next
  obtain ⟨survivors, inherits⟩ := cascade.backed next releases backed
  rw [steps, same]
  exact entered.assigns sound before number (puts.inherits inherits) survivors

/-- A dict holds a list that nothing else holds, and with it a string. The key of the list is
inserted again, as a string of its own with the same bytes, and its new value is that string. -/
def rebinding : Machine :=
  (start {} .ample [.update (.newStr [97]) .strict none, .update (.newStr [98]) .strict none,
    .update (.newStr []) .strict none,
    .update (.newList .object [.object (.ref ⟨4, 0⟩)]) .strict none,
    .update (.newDict .str .object [.str (.ref ⟨2, 0⟩), .str (.ref ⟨3, 0⟩)]
      [.object (.ref ⟨5, 0⟩), .object (.ref ⟨3, 0⟩)]) .strict none,
    .update (.decrement .heap false (.ref ⟨4, 0⟩)) .strict none,
    .update (.decrement .heap false (.ref ⟨5, 0⟩)) .strict none,
    .update (.newStr [97]) .strict none,
    .update (.dictInsert (.ref ⟨6, 0⟩) (.str (.ref ⟨7, 0⟩)) (.object (.ref ⟨7, 0⟩))) .checked
      none]).steps 16

theorem insertion_assigns_rebinding : rebinding.context.Covered ∧ rebinding.context.Unscripted ∧
    rebinding.context.dictFindKey ⟨6, 0⟩ (.str (some ⟨7, 0⟩)) = .ok (some 0) ∧
    ∃ n, Returns [] rebinding n .program (.ok .done) ∧
      (rebinding.steps n).context.table.find? ⟨4, 0⟩ = none ∧
      rebinding.context.Assigns ⟨6, 0⟩ (.str (some ⟨7, 0⟩)) (.object (some ⟨7, 0⟩))
        (rebinding.steps n).context := by
  have reachable : rebinding.Reachable := (Reachable.start _ _ _).steps 16
  have covered : rebinding.context.Covered := by decide +kernel
  have unscripted : rebinding.context.Unscripted := by decide +kernel
  obtain ⟨n, completes, last⟩ := completes_of_running reachable.sound
    (show rebinding.run.fault = none by decide +kernel)
  have returns : Returns [] rebinding n .program (.ok .done) := by
    refine ⟨completes, ?_⟩
    rw [last]
    exact ⟨_, _, rfl, .answered _ _⟩
  have gone : (rebinding.steps n).context.table.find? ⟨4, 0⟩ = none := by
    rw [last]
    decide +kernel
  exact ⟨covered, unscripted, by decide +kernel, n, returns, gone,
    insertion_assigns ⟨_, reachable, rfl⟩ covered unscripted rfl rfl (by decide +kernel)
      (fun x h => by cases h) returns⟩

end Machine

end ScopedHeap
