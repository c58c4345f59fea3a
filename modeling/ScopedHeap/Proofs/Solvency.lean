import ScopedHeap.Proofs.Ledger

/-!
# Counts that are always enough

A client may exchange payloads by hand. Slots that are overwritten that way leave counts behind that
nobody gives up, and a container that has changed its kind keeps its counts when it is destroyed, so
counts are no longer made up of what refers to a record. They are still enough (`Books.Funded`): a
client that never gives up a count it does not hold finds the record of every slot, and of every
count of its own.
-/
namespace ScopedHeap

open Context

theorem Doomed.count_inFlight_le (d : Doomed) (x : Ref) :
    (inFlight d.tasks).count x ≤ d.refs.count x := by
  unfold Doomed.tasks
  dsimp only
  cases d.record.header.hook with
  | none => simp [inFlight, Task.inFlight]
  | some hook =>
    cases hook with
    | script name commands => simp [inFlight, Task.inFlight]
    | releaseSlots kind =>
      dsimp only
      split <;> simp [inFlight, Task.inFlight, Doomed.refs]

theorem Doomed.count_inFlight_elim_le (doomed : Option Doomed) (x : Ref) :
    (inFlight (doomed.elim [] Doomed.tasks)).count x ≤ (doomed.elim [] Doomed.refs).count x := by
  cases doomed with
  | none => exact Nat.le_refl _
  | some d => exact d.count_inFlight_le x

namespace Act

variable {w : Workspace} {cx cx' : Context} {r : Ref} {payload : Payload} {hand : List Ref}
  {c : Change}

/-- On the way from `cx` to `cx'` payloads have been exchanged. The references of `hand` have left
their slots, along with others that are lost. -/
def Handles (cx : Context) (hand : List Ref) (cx' : Context) : Prop :=
  ∃ ds, Path cx ds cx' ∧
    ∀ x, (ds.flatMap Deed.losses).count x + hand.count x ≤ (ds.flatMap Deed.gains).count x

theorem handles_refl (cx : Context) : Handles cx [] cx := ⟨[], .refl cx, fun _ => Nat.le_refl _⟩

theorem Handles.drop (h : Handles cx hand cx') : Handles cx [] cx' := by
  obtain ⟨ds, path, enough⟩ := h
  refine ⟨ds, path, fun x => ?_⟩
  have := enough x
  rw [List.count_nil]
  omega

/-- Whatever path leads there, no more is lost than gained. -/
theorem Handles.losses_le {ds : List Deed} (h : Handles cx [] cx') (path : Path cx ds cx')
    (sound : cx.Sound) {x : Ref} (counted : cx'.table.isStatic x = false) :
    (ds.flatMap Deed.losses).count x ≤ (ds.flatMap Deed.gains).count x := by
  obtain ⟨es, other, enough⟩ := h
  have known := other.balance sound x counted
  have balance := path.balance sound x counted
  have := enough x
  rw [List.count_nil] at this
  omega

/-- A payload in hand goes into a record, and what the record held comes into the hand. -/
theorem ends_exchangePayload_hand {β : Type} {g : Payload → Act β}
    {R : Except Error β → Context → Prop} (h : Handles cx payload.refs w.context)
    (sound : w.context.Sound) (paired : payload.Paired)
    (failed : ∀ e, R (.error e) w.context)
    (stored : ∀ (old : Payload) (v : Workspace), Handles cx old.refs v.context →
      v.context.Sound → old.Paired → (g old).Ends v R) :
    (exchangePayload r payload >>= g).Ends w R := by
  obtain ⟨ds, path, enough⟩ := h
  apply ends_updatePayload_bind (fun e _ => failed e)
  intro record old q v found passed hv
  cases passed
  have move : Move w.context (.store r record.payload payload) v.context := by
    rw [hv]
    exact .store found paired
  refine stored record.payload v ⟨ds ++ [.store r record.payload payload],
    path.trans (.single move), fun x => ?_⟩ (move.sound sound)
    (sound.proper r _ (Table.bare_of_find? found)).paired
  have := enough x
  simp only [List.flatMap_append, List.flatMap_singleton, List.count_append, Deed.gains,
    Deed.losses]
  omega

theorem ends_setPayload_hand (h : Handles cx payload.refs w.context) (sound : w.context.Sound)
    (paired : payload.Paired) :
    (setPayload r payload).Ends w fun _ cx' => Handles cx [] cx' := by
  apply ends_exchangePayload_hand h sound paired (fun _ => h.drop)
  exact fun old v handles _ _ => ends_pure handles.drop

theorem ends_swapPayloads_hand (a b : Ref) (sound : w.context.Sound) :
    (swapPayloads a b).Ends w fun _ cx' => Handles w.context [] cx' := by
  have start := handles_refl w.context
  apply ends_exchangePayload_hand start sound Payload.paired_empty (fun _ => start)
  intro fromB v₁ first sound₁ paired₁
  apply ends_exchangePayload_hand first sound₁ paired₁ (fun _ => first.drop)
  exact fun fromA v₂ second sound₂ paired₂ => ends_setPayload_hand second sound₂ paired₂

theorem ends_staticFrom_hand (r : Ref) (sound : w.context.Sound) :
    (staticFrom r).Ends w fun a cx' => Handles w.context [] cx' ∧
      ∀ s, a = .ok s → cx'.table.isStatic s = true := by
  have start := handles_refl w.context
  apply ends_exchangePayload_hand start sound Payload.paired_empty
  · exact fun e => ⟨start, fun s h => by cases h⟩
  intro old v taken sound₁ paired
  apply ends_allocateStatic
  · exact fun e => ⟨taken.drop, fun s h => by cases h⟩
  intro grant s table inserted
  obtain ⟨ds, path, enough⟩ := taken
  refine ⟨⟨ds ++ [.allocateStatic s old], path.trans (.single (.allocateStatic inserted paired)),
    fun x => ?_⟩, ?_⟩
  · have := enough x
    simp only [List.flatMap_append, List.flatMap_singleton, List.count_append, Deed.gains,
      Deed.losses, List.count_nil]
    omega
  · rintro _ ⟨⟩
    have spec := (Table.insert_spec sound₁.vacant inserted).1
    have found : table.find? s = some ⟨.forever, old⟩ := by rw [spec.find?, if_pos rfl]
    exact (Table.isStatic_of_find? found).mpr rfl

/-- A change that exchanges payloads loses no more than it gains. It dooms nothing, and if it
answers with a record, that one is static. -/
theorem ends_change_hand (w : Workspace) (sound : w.context.Sound)
    (exchanges : c.exchangesPayload = true) :
    (Act.change c).Ends w fun a cx' => Handles w.context [] cx' ∧
      ∀ effect, a = .ok effect → effect.doomed = none ∧
        ∀ s, effect.answer = .ref s → cx'.table.isStatic s = true := by
  cases c with
  | setPayload r contents =>
    have refs : contents.payload.refs = [] := by cases contents <;> rfl
    have start : Handles w.context contents.payload.refs w.context := by
      rw [refs]
      exact handles_refl _
    refine (ends_setPayload_hand start sound (by cases contents <;> trivial)).map _ ?_ ?_
    · exact fun e cx' handles => ⟨handles, fun _ h => by cases h⟩
    · rintro _ cx' handles
      refine ⟨handles, ?_⟩
      rintro _ ⟨⟩
      exact ⟨rfl, fun s h => by cases h⟩
  | swapPayloads a b =>
    refine (ends_swapPayloads_hand a b sound).map _ ?_ ?_
    · exact fun e cx' handles => ⟨handles, fun _ h => by cases h⟩
    · rintro _ cx' handles
      refine ⟨handles, ?_⟩
      rintro _ ⟨⟩
      exact ⟨rfl, fun s h => by cases h⟩
  | staticFrom r =>
    refine (ends_staticFrom_hand r sound).map _ ?_ ?_
    · exact fun e cx' handles => ⟨handles.1, fun _ h => by cases h⟩
    · rintro s cx' ⟨handles, static⟩
      refine ⟨handles, ?_⟩
      rintro _ ⟨⟩
      refine ⟨rfl, ?_⟩
      rintro _ ⟨⟩
      exact static s rfl
  | allocate | allocateStatic | writeRaw | pushScope | increment | decrement | newStr | newText
  | newList | listPush | listPop | listSet | newDict | dictInsert | newSet => cases exchanges

end Act

section Turning

variable {cx cx' : Context} {grants : Grants} {b : Bindings} {t : Task} {ds : List Deed}
  {new : List Task} {fault : Option Fault} {owned : Ledger} {c : Change} {effect : Effect}
  {w : Workspace} {x : Ref}

/-- Among the counts of records that are not static, none is earned by exchanging payloads. -/
theorem Update.settle_of_exchanges (ran : Act.change c ⟨cx, [], grants⟩ = .ok effect w)
    (sound : cx.Sound) (exchanges : c.exchangesPayload = true)
    (counted : w.context.table.isStatic x = false) :
    c.settle ⟨cx, [], grants⟩ owned x = owned x := by
  have hand := Act.ends_change_hand ⟨cx, [], grants⟩ sound exchanges
  rw [Act.Ends, ran] at hand
  obtain ⟨_, static⟩ := hand.2 effect rfl
  rw [Update.settle, ran]
  cases c with
  | setPayload | swapPayloads | staticFrom =>
    dsimp only
    cases answer : effect.answer with
    | ref s =>
      have hx : x ≠ s := by
        rintro rfl
        cases counted.symm.trans (static x answer)
      exact Function.update_of_ne hx 1 owned
    | _ => rfl
  | allocate | allocateStatic | writeRaw | pushScope | increment | decrement | newStr | newText
  | newList | listPush | listPop | listSet | newDict | dictInsert | newSet => cases exchanges

/-- A change that is made loses no more than it gains, what the client holds from then on and what
it dooms included. -/
theorem Update.Completed.losses_le (completed : c.Completed cx effect ds w.context)
    (ran : Act.change c ⟨cx, [], grants⟩ = .ok effect w) (path : Path cx ds w.context)
    (sound : cx.Sound) (covered : ∀ r ∈ c.spent cx, 1 ≤ owned r)
    (fresh : ∀ r, cx.table.bare r = none → owned r = 0)
    (counted : w.context.table.isStatic x = false) :
    (ds.flatMap Deed.losses).count x + c.settle ⟨cx, [], grants⟩ owned x +
        (effect.doomed.elim [] Doomed.refs).count x ≤
      (ds.flatMap Deed.gains).count x + owned x := by
  cases exchanges : c.exchangesPayload with
  | false =>
    have balance := completed.balance exchanges x counted
    have settled := completed.settle_add_spent ran path sound exchanges covered fresh x
    omega
  | true =>
    have hand := Act.ends_change_hand ⟨cx, [], grants⟩ sound exchanges
    rw [Act.Ends, ran] at hand
    have le := hand.1.losses_le path sound counted
    rw [Update.settle_of_exchanges ran sound exchanges counted, (hand.2 effect rfl).1]
    exact Nat.add_le_add_right le _

theorem Update.Failed.losses_le {e : Error} (failed : c.Failed ds w.context)
    (ran : Act.change c ⟨cx, [], grants⟩ = .error e w) (path : Path cx ds w.context)
    (sound : cx.Sound) (counted : w.context.table.isStatic x = false) :
    (ds.flatMap Deed.losses).count x ≤ (ds.flatMap Deed.gains).count x := by
  cases exchanges : c.exchangesPayload with
  | false =>
    obtain ⟨lost, _, balance⟩ := failed.balance exchanges
    rw [balance x]
    exact Nat.le_add_right _ _
  | true =>
    have hand := Act.ends_change_hand ⟨cx, [], grants⟩ sound exchanges
    rw [Act.Ends, ran] at hand
    exact hand.1.losses_le path sound counted

/-- A step takes no count away that a client holds, or that is for a reference in flight. -/
theorem Turn.losses_le {tasks : List Task} (turn : Turn cx grants b t ds cx' new fault)
    (sound : cx.Sound) (covered : ∀ c ∈ t.change? b, ∀ r ∈ c.spent cx, 1 ≤ owned r)
    (keeps : t.isSweep = false)
    (enough : ∀ x, cx.table.isStatic x = false →
      owned x + cx.table.slotCount x + (inFlight (t :: tasks)).count x ≤ cx.table.count x)
    (x : Ref) (counted : cx'.table.isStatic x = false) :
    (ds.flatMap Deed.losses).count x +
        (t.change? b).elim owned (fun c => c.settle ⟨cx, [], grants⟩ owned) x +
        (inFlight new).count x ≤
      (ds.flatMap Deed.gains).count x + owned x + t.inFlight.count x := by
  cases turn with
  | asked | outermost | popping | unhooked | released | finished
  | bottom | closing | mismatched | unwound | unwinding | drained => exact Nat.le_refl _
  | hooked | buried => exact Nat.le_refl (0 + owned x + 0)
  | opened =>
    rw [inFlight_concat, inFlight_map_perform]
    exact Nat.le_refl _
  | @left _ _ after =>
    have idle : inFlight (if after = .unwind then [.unwind] else []) = [] := by split <;> rfl
    rw [idle]
    exact Nat.le_refl _
  | scripted =>
    rw [inFlight_map_perform]
    exact Nat.le_refl _
  | unbound read =>
    rw [Task.change?, read]
    exact Nat.le_refl _
  | @changed _ _ _ _ c effect _ _ read ran path completed =>
    have fresh : ∀ r, cx.table.bare r = none → owned r = 0 := by
      intro r absent
      have le := enough r (by rw [Table.isStatic_eq_bare, absent]; rfl)
      rw [Table.count_eq_bare, absent] at le
      exact Nat.eq_zero_of_le_zero (by simp only [Option.elim_none] at le; omega)
    rw [Task.change?_of_read read] at covered ⊢
    have le := completed.losses_le ran path sound (covered c rfl) fresh counted
    have flight := Doomed.count_inFlight_elim_le effect.doomed x
    rw [inFlight_concat]
    simp only [Task.inFlight, List.append_nil, List.count_nil, Option.elim_some]
    omega
  | @refused _ _ _ _ c _ _ _ _ read ran path failed =>
    have le := failed.losses_le ran path sound counted
    have unsettled : c.settle ⟨cx, [], grants⟩ owned = owned := by rw [Update.settle, ran]
    rw [Task.change?_of_read read, Option.elim_some, unsettled]
    exact Nat.add_le_add_right (Nat.add_le_add_right le _) _
  | @releasing _ _ doomed _ _ _ _ _ conduct =>
    have balance := conduct.balance x
    have flight := Doomed.count_inFlight_elim_le doomed x
    rw [inFlight_concat]
    simp only [Task.inFlight, Task.change?, Option.elim_none, List.count_append, List.count_cons,
      List.count_nil] at balance ⊢
    omega
  | @stuck r rest e w ran unheld =>
    have positive : 0 < (inFlight (.releaseRefs (r :: rest) :: tasks)).count r :=
      List.count_pos_iff.mpr (by simp [inFlight, Task.inFlight])
    have le := enough r unheld.1
    rw [unheld.2] at le
    omega
  | @exiting _ _ _ d | @draining d =>
    have flight := d.count_inFlight_le x
    rw [inFlight_concat]
    simp only [Task.inFlight, Task.change?, Option.elim_none, Deed.gains, Deed.losses, Doomed.refs,
      List.flatMap_cons, List.flatMap_nil, List.append_nil, List.count_nil] at flight ⊢
    omega
  | swept => cases keeps

end Turning

namespace Books

variable {b : Books}

/-- The next step gives up no count that the client does not hold, and sweeps nothing away. -/
structure Solvent (b : Books) : Prop where
  covered : ∀ c ∈ b.machine.change?, ∀ r ∈ c.spent b.machine.context, 1 ≤ b.owned r
  keeps : ∀ t ∈ b.machine.agenda.head?, t.isSweep = false

instance (b : Books) : Decidable b.Solvent :=
  decidable_of_iff ((∀ c ∈ b.machine.change?, ∀ r ∈ c.spent b.machine.context, 1 ≤ b.owned r) ∧
      ∀ t ∈ b.machine.agenda.head?, t.isSweep = false)
    ⟨fun ⟨covered, keeps⟩ => ⟨covered, keeps⟩, fun h => ⟨h.covered, h.keeps⟩⟩

/-- There is a count for all that the client holds, for what is in slots and for what is in
flight. -/
structure Funded (b : Books) : Prop where
  sound : b.machine.context.Sound
  enough : ∀ x, b.machine.context.table.isStatic x = false →
    b.owned x + b.machine.context.table.slotCount x + (inFlight b.machine.agenda).count x ≤
      b.machine.context.table.count x

theorem Kept.funded (h : b.Kept) : b.Funded :=
  ⟨h.sound, fun x counted => Nat.le_of_eq (h.balance x counted).symm⟩

theorem Funded.step (h : b.Funded) (solvent : b.Solvent) : b.step.Funded := by
  rcases b.step_cases with same | ⟨running, t, rest, next⟩
  · rw [same]
    exact h
  · obtain ⟨ds, new, turn, agenda⟩ := Machine.turn_step h.sound running next
    have change := Machine.change?_eq running next
    have covered := solvent.covered
    rw [change] at covered
    have keeps : t.isSweep = false := solvent.keeps t (by rw [next]; rfl)
    refine ⟨turn.path.sound h.sound, ?_⟩
    intro x counted
    have enough := h.enough
    rw [next] at enough
    have losses := turn.losses_le h.sound covered keeps enough x counted
    have balance := turn.path.balance h.sound x counted
    have count := enough x (turn.path.isStatic_eq_false h.sound counted)
    rw [← change] at losses
    rw [inFlight_cons, List.count_append] at count
    show b.machine.change?.elim b.owned (fun c => c.settle b.machine.workspace b.owned) x +
        b.machine.step.context.table.slotCount x + (inFlight b.machine.step.agenda).count x ≤
      b.machine.step.context.table.count x
    rw [agenda, inFlight_append, List.count_append]
    dsimp only [Machine.workspace]
    omega

theorem Run.funded (h : b.Run Solvent) : b.Funded := by
  induction h with
  | start settings memory program => exact (kept_start settings memory program).funded
  | step _ solvent ih => exact ih.step solvent
  | @closing b _ idle ih =>
    refine ⟨ih.sound, fun x counted => ?_⟩
    have enough := ih.enough x counted
    rw [inFlight_of_idle idle] at enough
    rw [inFlight_closing]
    exact enough

theorem Funded.isSome (h : b.Funded) {x : Ref}
    (used : 0 < b.owned x + b.machine.context.table.slotCount x) :
    (b.machine.context.table.find? x).isSome = true := by
  cases found : b.machine.context.table.find? x with
  | some record => rfl
  | none =>
    have enough := h.enough x (by rw [Table.isStatic, found, Option.any_none])
    rw [Table.count, found, Option.elim_none] at enough
    omega

end Books

end ScopedHeap
