import ScopedHeap.Proofs.Admission
import ScopedHeap.Proofs.Contents

/-!
# What containers take in

A slot that is in a container after a step was in a container before, or it has been admitted: the
record that it refers to was there just before the step, and held what the kind of the slot requires
(`Machine.holds_step`). What is true of admitted slots and is not lost in a step is therefore true
of all slots, at all times.
-/
namespace ScopedHeap

open Context

def Context.Holds (cx : Context) (v : Slot) : Prop :=
  ∃ x p, cx.table.payload? x = some p ∧ v ∈ p.slots

theorem Context.Inherits.holds {cx cx' : Context} {v : Slot} (h : cx.Inherits cx')
    (holds : cx'.Holds v) : cx.Holds v := by
  obtain ⟨x, p, found, mem⟩ := holds
  exact ⟨x, p, h x p found, mem⟩

theorem Context.Puts.holds {cx cx' : Context} {r : Ref} {p q : Payload} {v : Slot}
    (h : cx.Puts r q cx') (before : cx.table.payload? r = some p) (same : q.slots = p.slots)
    (holds : cx'.Holds v) : cx.Holds v := by
  obtain ⟨x, o, found, mem⟩ := holds
  have after := h x o found
  by_cases e : x = r
  · rw [if_pos e] at after
    rw [after, same] at mem
    exact ⟨r, p, before, mem⟩
  · rw [if_neg e] at after
    exact ⟨x, o, after, mem⟩

theorem Context.payload_of_payload? {cx : Context} {r : Ref} {p : Payload}
    (h : cx.table.payload? r = some p) : cx.payload r = .ok p := by
  obtain ⟨record, found, rfl⟩ := Table.payload?_eq_some.mp h
  simp only [Context.payload, Context.find, Table.find, found]
  rfl

theorem Context.dict_of_payload? {cx : Context} {r : Ref} {d : SlotDict}
    (h : cx.table.payload? r = some (.dict d)) : cx.dict r = .ok d := by
  rw [Context.dict, payload_of_payload? h]
  rfl

theorem Payload.slots_of_plain {p : Payload} (plain : p.isContainer = false) : p.slots = [] := by
  cases p with
  | raw | str | text => rfl
  | list | dict | set => cases plain

namespace Update

variable {c : Change} {cx : Context} {grants : Grants} {a : Except Error Effect} {x : Ref}
  {p q : Payload} {v : Slot}
  {limit : Nat}

/-- The slots that a change is to put into a container. The key of an entry that is there stays as
it is. -/
def intake (c : Change) (cx : Context) : List Slot :=
  match c with
  | .newList _ slots | .newSet _ slots => slots
  | .newDict _ _ keys values => keys ++ values
  | .listPush _ v | .listSet _ _ v => [v]
  | .dictInsert r key v =>
    match cx.dictFindKey r key with
    | .ok (some _) => [v]
    | _ => [key, v]
  | _ => []

theorem Makes.mem_intake (h : Makes limit c p) (mem : v ∈ p.slots) : v ∈ c.intake cx := by
  cases h with
  | plain plain =>
    rw [Payload.slots_of_plain plain] at mem
    cases mem
  | list laid | set laid =>
    rw [Payload.slots, SlotList.items_ofSlots laid] at mem
    exact mem
  | dict laid =>
    obtain ⟨keys, values, _⟩ := SlotDict.items_ofSlots laid
    rw [Payload.slots, keys, values] at mem
    exact mem

theorem Reshapes.mem_intake (h : c.Reshapes cx x q p) (before : cx.table.payload? x = some q)
    (mem : v ∈ p.slots) : v ∈ q.slots ∨ v ∈ c.intake cx := by
  cases h with
  | write => cases mem
  | grow grows =>
    rw [Payload.slots, grows.items] at mem
    exact Or.inl mem
  | push _ grows =>
    rw [Payload.slots, SlotList.push, grows.items] at mem
    exact List.mem_append.mp mem
  | pop popped =>
    rw [Payload.slots, SlotList.items_pop popped]
    exact Or.inl (List.mem_append_left _ mem)
  | set _ position => exact (List.mem_or_eq_of_mem_set mem).imp_right List.mem_singleton.mpr
  | @replace d key u i _ found =>
    have there : cx.dictFindKey x key = .ok (some i) := by
      rw [dictFindKey, dict_of_payload? before]
      exact found
    rw [intake, there]
    rcases List.mem_append.mp mem with mem | mem
    · exact Or.inl (List.mem_append_left _ mem)
    · exact (List.mem_or_eq_of_mem_set mem).imp (List.mem_append_right _) List.mem_singleton.mpr
  | widen grows =>
    rw [grows.slots] at mem
    exact Or.inl mem
  | @append d e key u _ absent grows =>
    have missing : cx.dictFindKey x key = .ok none := by
      rw [dictFindKey, dict_of_payload? before]
      exact absent
    rw [intake, missing]
    rw [Payload.slots, SlotList.push, SlotList.push, grows.1.items, grows.2.items] at mem
    simp only [Payload.slots, List.mem_append, List.mem_cons] at mem ⊢
    tauto

/-- A slot was in a container before the change, or the change has put it there. -/
theorem Descends.mem_intake (h : c.Descends cx grants a x p) (mem : v ∈ p.slots) :
    cx.Holds v ∨ v ∈ c.intake cx := by
  cases h with
  | moved source before => exact Or.inl ⟨_, p, before, mem⟩
  | reshaped source before shape =>
    exact (shape.mem_intake before mem).imp_left fun mem => ⟨x, _, before, mem⟩
  | starved change outcome before starves after =>
    rw [after, starves.slots] at mem
    exact Or.inl ⟨x, _, before, mem⟩
  | made source absent made => exact Or.inr (made.mem_intake mem)
  | overwritten exchanges plain =>
    rw [Payload.slots_of_plain plain] at mem
    cases mem

end Update

theorem Table.Admits.of_setPayload {t : Table} {r : Ref} {record : Record} {q : Payload} {v : Slot}
    (found : t.find? r = some record) (kind : q.kind = record.payload.kind)
    (h : (t.modifyAt r.index (Record.setPayload q)).Admits v) : t.Admits v := by
  intro x refers
  obtain ⟨after, found', typed, awake⟩ := h x refers
  rw [Table.find?_modifyAt_of_find? found] at found'
  by_cases e : x = r
  · rw [if_pos e] at found'
    cases found'
    rw [e]
    refine ⟨record, found, ?_, awake⟩
    rw [← kind]
    exact typed
  · rw [if_neg e] at found'
    exact ⟨after, found', typed, awake⟩

namespace Act

variable {w : Workspace} {c : Change} {r : Ref}

theorem ends_retain_admits {β : Type} {f : Unit → Act β} {R : Except Error β → Context → Prop}
    (slots : List Slot) (sound : w.context.Sound) (failed : ∀ e, R (.error e) w.context)
    (admitted : (∀ v ∈ slots, w.context.table.Admits v) → ∀ a cx, R a cx) :
    (retain slots >>= f).Ends w R := by
  refine (ends_retained slots sound).bind ?_ ?_
  · intro e cx retained
    cases retained with
    | misfit | pending => exact failed _
  · intro _ v retained
    have ok := retained.eq_ok_iff.mp rfl
    exact ends_of_forall (admitted ok)

/-- The change has put no slot anywhere, or all its slots have been admitted. -/
def Selects (c : Change) (cx cx' : Context) : Prop :=
  (∀ v, cx'.Holds v → cx.Holds v) ∨ ∀ v ∈ c.intake cx, cx.table.Admits v

theorem selects_refl (c : Change) (cx : Context) : Selects c cx cx := Or.inl fun _ h => h

theorem ends_allocContainer_selects {p : Payload} {slots : List Slot} (sound : w.context.Sound)
    (intake : c.intake w.context = slots) :
    (allocContainer p slots).Ends w fun _ cx => Selects c w.context cx := by
  apply ends_retain_admits slots sound (fun _ => selects_refl c _)
  rw [← intake]
  exact fun admitted _ _ => Or.inr admitted

theorem selects_listPush (r : Ref) (v : Slot) (w : Workspace) (sound : w.context.Sound) :
    (listPush r v).Ends w fun _ cx => Selects (.listPush r v) w.context cx := by
  unfold listPush
  apply ends_read_bind (fun _ _ => selects_refl _ _)
  intro _ _
  apply ends_read_bind (fun _ _ => selects_refl _ _)
  intro _ _
  apply ends_context_bind
  apply ends_reserveList_bind (fun _ => selects_refl _ _)
  intro record l k v₁ found payload grows hv₁
  have stored : Move w.context (.store r record.payload (.list k)) v₁.context := by
    rw [hv₁]
    exact .store found trivial
  apply ends_retain_admits [v] (stored.sound sound)
  · intro e
    have grown : w.context.Puts r (.list k) v₁.context := by
      rw [hv₁]
      exact puts_of_store found
    refine Or.inl fun u => grown.holds (Table.payload?_of_find? found) ?_
    rw [payload]
    exact grows.items
  · intro admitted _ _
    rw [hv₁] at admitted
    exact Or.inr fun u hu => (admitted u hu).of_setPayload found (by rw [payload]; rfl)

theorem selects_listSet (r : Ref) (index : Int) (v : Slot) (w : Workspace)
    (sound : w.context.Sound) :
    (listSet r index v).Ends w fun _ cx => Selects (.listSet r index v) w.context cx := by
  unfold listSet
  apply ends_read_bind (fun _ _ => selects_refl _ _)
  intro i _
  apply ends_retain_admits [v] sound (fun _ => selects_refl _ _)
  exact fun admitted _ _ => Or.inr admitted

theorem selects_dictInsert (r : Ref) (key v : Slot) (w : Workspace) (sound : w.context.Sound) :
    (dictInsert r key v).Ends w fun _ cx => Selects (.dictInsert r key v) w.context cx := by
  unfold dictInsert
  apply ends_read_bind (fun _ _ => selects_refl _ _)
  intro position h
  obtain ⟨d, hd, h⟩ := bind_eq_ok.mp h
  obtain ⟨_, _, h⟩ := bind_eq_ok.mp h
  have searched : w.context.dictFindKey r key = .ok position := by
    rw [dictFindKey, hd]
    exact h
  cases position with
  | some i =>
    apply ends_retain_admits [v] sound (fun _ => selects_refl _ _)
    intro admitted _ _
    refine Or.inr ?_
    rw [Update.intake, searched]
    exact admitted
  | none =>
    refine Ends.map (P := fun _ cx => Selects (.dictInsert r key v) w.context cx) ?_ _
      (fun _ _ selects => selects) fun _ _ selects => selects
    unfold dictAppend
    apply ends_context_bind
    apply ends_reserveDict_bind sound (fun _ => selects_refl _ _)
    · intro record d e err found payload _ starves
      refine Or.inl fun u => (puts_of_store found).holds (Table.payload?_of_find? found) ?_
      rw [payload, starves.slots]
    intro record d e v₁ found payload paired grows hv₁
    have sound₁ : v₁.context.Sound := by
      rw [hv₁]
      exact (Move.store found (show (Payload.dict e).Paired from (paired.grow grows).1)).sound sound
    apply ends_retain_admits [key, v] sound₁
    · intro _
      have widened : w.context.Puts r (.dict e) v₁.context := by
        rw [hv₁]
        exact puts_of_store found
      refine Or.inl fun u => widened.holds (Table.payload?_of_find? found) ?_
      rw [payload, grows.slots]
    · intro admitted _ _
      rw [hv₁] at admitted
      refine Or.inr ?_
      rw [Update.intake, searched]
      exact fun u hu => (admitted u hu).of_setPayload found (by rw [payload]; rfl)

theorem ends_selects (c : Change) (w : Workspace) (sound : w.context.Sound) :
    (Act.change c).Ends w fun _ cx => Selects c w.context cx := by
  have answered {α : Type} {x : Act α} {f : α → Effect}
      (h : x.Ends w fun _ cx => Selects c w.context cx) :
      (x >>= fun a => pure (f a)).Ends w fun _ cx => Selects c w.context cx :=
    h.map f (fun _ _ selects => selects) fun _ _ selects => selects
  cases c with
  | newList kind slots | newSet kind slots =>
    apply answered
    apply ends_nextGrant_bind
    apply ends_read_bind (fun _ _ => selects_refl _ _)
    exact fun _ _ => ends_allocContainer_selects sound rfl
  | newDict keyKind valueKind keys values =>
    apply answered
    apply ends_nextGrant_bind
    apply ends_nextGrant_bind
    apply ends_read_bind (fun _ _ => selects_refl _ _)
    exact fun _ _ => ends_allocContainer_selects sound rfl
  | listPush r v => exact answered (selects_listPush r v w sound)
  | listSet r index v => exact answered (selects_listSet r index v w sound)
  | dictInsert r key v => exact answered (selects_dictInsert r key v w sound)
  | allocate | allocateStatic | staticFrom | setPayload | swapPayloads | writeRaw | pushScope
  | increment | decrement | newStr | newText | listPop =>
    exact ends_of_forall fun _ _ => Or.inr fun v hv => absurd hv List.not_mem_nil

/-- After a change, a slot was in a container before or has been admitted. -/
theorem ends_holds (c : Change) (w : Workspace) (sound : w.context.Sound) :
    (Act.change c).Ends w fun _ cx =>
      ∀ v, cx.Holds v → w.context.Holds v ∨ w.context.table.Admits v := by
  apply ((ends_descends c w sound).and (ends_selects c w sound)).mono
  rintro a cx ⟨descended, selects⟩ v ⟨x, p, found, mem⟩
  rcases selects with none | admitted
  · exact Or.inl (none v ⟨x, p, found, mem⟩)
  · exact ((descended x p found).mem_intake mem).imp_right (admitted v)

end Act

theorem Machine.holds_step {m : Machine} (sound : m.context.Sound) {v : Slot}
    (holds : m.step.context.Holds v) : m.context.Holds v ∨ m.context.table.Admits v := by
  cases change : m.change? with
  | none => exact Or.inl ((m.inherits_step sound change).holds holds)
  | some c => exact m.after_change sound change (Act.ends_holds c _ sound) v holds

theorem History.holds_succ (h : History) {n : Nat} {v : Slot}
    (holds : (h.state (n + 1)).context.Holds v) :
    (h.state n).context.Holds v ∨ (h.state n).context.table.Admits v := by
  by_cases close : h.closing = some n
  · rw [show h.state (n + 1) = (h.state n).closing from if_pos close] at holds
    exact Or.inl holds
  · rw [show h.state (n + 1) = (h.state n).step from if_neg close] at holds
    exact Machine.holds_step (h.sound n) holds

end ScopedHeap
