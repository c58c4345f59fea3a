import ScopedHeap.Proofs.Turn

/-!
# One record at a time

`Act.Allots x n` says that carrying out `x` allocates at most `n` records. A change allocates one at
most (`allots_change`), and so does every step of a machine (`Turn.allocated_le`): no two records
come into being at the same moment.
-/
namespace ScopedHeap

namespace Act

variable {α β : Type} {x : Act α} {f : α → Act β} {n k : Nat}

/-- Carrying out the operation allocates at most `n` records. -/
def Allots (x : Act α) (n : Nat) : Prop :=
  ∀ w, x.Ends w fun _ cx => cx.counters.allocated ≤ w.context.counters.allocated + n

theorem allots_pure (a : α) : (pure a : Act α).Allots 0 := fun _ => Nat.le_refl _

theorem allots_throw (e : Error) : (throw e : Act α).Allots 0 := fun _ => Nat.le_refl _

theorem allots_context : context.Allots 0 := fun _ => Nat.le_refl _

theorem allots_nextGrant : nextGrant.Allots 0 := fun _ => Nat.le_refl _

theorem allots_notify (notice : Notice) : (notify notice).Allots 0 := fun _ => Nat.le_refl _

theorem allots_modifyTable (g : Table → Table) : (modifyTable g).Allots 0 := fun _ => Nat.le_refl _

theorem allots_modifyScopes (g : ScopeStack → ScopeStack) : (modifyScopes g).Allots 0 :=
  fun _ => Nat.le_refl _

theorem allots_modifyCounters {g : Counters → Counters}
    (h : ∀ c, (g c).allocated ≤ c.allocated + n) : (modifyCounters g).Allots n :=
  fun w => h w.context.counters

theorem allots_read (g : Context → Except Error α) : (read g).Allots 0 := by
  intro w
  unfold Ends
  rw [read_apply]
  cases g w.context with
  | ok a => exact Nat.le_refl _
  | error e => exact Nat.le_refl _

theorem allots_onTable (g : Table → Except Error (α × Table)) : (onTable g).Allots 0 :=
  fun _ => ends_onTable (fun _ _ => Nat.le_refl _) fun _ _ _ => Nat.le_refl _

theorem Allots.bind (hx : x.Allots n) (hf : ∀ a, (f a).Allots k) : (x >>= f).Allots (n + k) := by
  intro w
  refine (hx w).bind ?_ ?_
  · intro e cx le
    omega
  · intro a v le
    apply (hf a v).mono
    intro _ cx le'
    omega

theorem Allots.first (hx : x.Allots 0) (hf : ∀ a, (f a).Allots n) : (x >>= f).Allots n := by
  have both := hx.bind hf
  rwa [Nat.zero_add] at both

theorem Allots.catching {f : Error → Act α} (hx : x.Allots n) (hf : ∀ e, (f e).Allots k) :
    (tryCatch x f).Allots (n + k) := by
  intro w
  refine (hx w).catching ?_ ?_
  · intro a cx le
    omega
  · intro e v le
    apply (hf e v).mono
    intro _ cx le'
    omega

theorem Allots.mono (hx : x.Allots n) (le : n ≤ k) : x.Allots k := by
  intro w
  apply (hx w).mono
  intro _ cx h
  omega

theorem allots_increment (family : Family) (r : Ref) : (increment family r).Allots 0 := by
  intro w
  apply (ends_increment family r w).mono
  intro a cx h
  cases h with
  | dangling | ignored | refused | raised => exact Nat.le_refl _

theorem allots_decrement (family : Family) (keep : Bool) (r : Ref) :
    (decrement family keep r).Allots 0 := by
  intro w
  apply (ends_decrement family keep r w).mono
  intro a cx h
  cases h with
  | dangling | ignored | underflow | lowered | destroyed | deferred => exact Nat.le_refl _

theorem allots_unretain (refs : List Ref) : (unretain refs).Allots 0 := by
  induction refs with
  | nil => exact allots_pure ()
  | cons r rest ih =>
    refine Allots.first ?_ fun _ => ih
    exact ((allots_decrement .heap true r).first fun _ => allots_pure _).catching
      fun _ => allots_notify _

theorem allots_retainFrom (done refs : List Ref) : (retainFrom done refs).Allots 0 := by
  induction refs generalizing done with
  | nil => exact allots_pure ()
  | cons r rest ih =>
    refine Allots.first ?_ fun _ => ih _
    exact (allots_increment .heap r).catching
      fun _ => (allots_unretain done).first fun _ => allots_throw _

theorem allots_retain (slots : List Slot) : (retain slots).Allots 0 :=
  (allots_read _).first fun _ => allots_retainFrom _ _

theorem allots_allocRecord (payload : Payload) : (allocRecord payload).Allots 1 := by
  refine allots_context.first fun _ => allots_nextGrant.first fun _ =>
    (allots_onTable _).first fun _ => (allots_modifyTable _).first fun _ => ?_
  refine (allots_modifyCounters (n := 1) fun _ => Nat.le_refl _).bind (k := 0) fun _ => ?_
  exact (allots_notify _).first fun _ => allots_pure _

theorem allots_allocateStatic (payload : Payload) : (allocateStatic payload).Allots 0 :=
  allots_nextGrant.first fun _ => allots_onTable _

theorem allots_allocate (size : Nat) (zeroed : Bool) : (allocate size zeroed).Allots 1 :=
  fun w => ends_allocate (fun _ => Nat.le_succ _) fun _ grants =>
    allots_allocRecord _ { w with grants }

theorem allots_allocBuffered (bytes : Nat) (payload : Payload) :
    (allocBuffered bytes payload).Allots 1 :=
  fun w => ends_allocBuffered (fun _ => Nat.le_succ _) fun grants =>
    allots_allocRecord payload { w with grants }

theorem allots_installHook (r : Ref) (hook : Hook) : (installHook r hook).Allots 0 := by
  refine (allots_read _).first fun header => ?_
  dsimp only
  split
  · exact (allots_throw _).first fun _ => allots_modifyTable _
  · exact allots_modifyTable _

theorem allots_updatePayload (r : Ref) (F : Payload → Except Error (α × Payload)) :
    (updatePayload r F).Allots 0 := by
  unfold updatePayload
  exact allots_onTable _

theorem allots_exchangePayload (r : Ref) (payload : Payload) :
    (exchangePayload r payload).Allots 0 := by
  unfold exchangePayload
  exact allots_updatePayload r _

theorem allots_setPayload (r : Ref) (payload : Payload) : (setPayload r payload).Allots 0 :=
  (allots_exchangePayload r payload).first fun _ => allots_pure _

theorem allots_swapPayloads (a b : Ref) : (swapPayloads a b).Allots 0 :=
  (allots_exchangePayload b _).first fun _ => (allots_exchangePayload a _).first fun _ =>
    allots_setPayload b _

theorem allots_allocContainer (payload : Payload) (slots : List Slot) :
    (allocContainer payload slots).Allots 1 := by
  refine (allots_retain slots).first fun _ => ?_
  have stored := (allots_allocRecord payload).catching (k := 0)
    fun e => (allots_unretain (slots.filterMap Slot.ref?)).first fun _ => allots_throw e
  exact stored.bind (k := 0) fun r => (allots_installHook r _).first fun _ => allots_pure _

theorem allots_dropSlot (v : Slot) : (dropSlot v).Allots 0 := by
  unfold dropSlot
  cases v.ref? with
  | none => exact allots_pure _
  | some r => exact allots_decrement .heap false r

theorem allots_dropOld (old : Option Slot) : (old.elim (pure none) dropSlot).Allots 0 := by
  cases old with
  | none => exact allots_pure _
  | some v => exact allots_dropSlot v

theorem allots_updateList (r : Ref) (F : SlotList → Except Error (α × SlotList)) :
    (updateList r F).Allots 0 := by
  unfold updateList
  exact allots_updatePayload r _

theorem allots_updateDict (r : Ref) (F : SlotDict → Except Error (α × SlotDict)) :
    (updateDict r F).Allots 0 := by
  unfold updateDict
  exact allots_updatePayload r _

theorem allots_reserveList (r : Ref) (limit : Nat) : (reserveList r limit).Allots 0 :=
  allots_nextGrant.first fun _ => allots_updateList r _

theorem allots_listPush (r : Ref) (v : Slot) : (listPush r v).Allots 0 :=
  (allots_read _).first fun _ => (allots_read _).first fun _ => allots_context.first fun _ =>
    (allots_reserveList r _).first fun _ => (allots_retain _).first fun _ =>
    (allots_updateList r _).first fun _ => allots_notify _

theorem allots_listPop (r : Ref) : (listPop r).Allots 0 :=
  (allots_updateList r _).first fun v => (allots_dropSlot v).first fun _ => allots_pure _

theorem allots_listSet (r : Ref) (index : Int) (v : Slot) : (listSet r index v).Allots 0 :=
  (allots_read _).first fun _ => (allots_retain _).first fun _ =>
    (allots_updateList r _).first fun old => allots_dropOld old

theorem allots_reserveDict (r : Ref) (limit : Nat) : (reserveDict r limit).Allots 0 :=
  allots_nextGrant.first fun _ => (allots_updateDict r _).first fun _ =>
    allots_nextGrant.first fun _ => allots_updateDict r _

theorem allots_dictInsert (r : Ref) (key v : Slot) : (dictInsert r key v).Allots 0 := by
  refine (allots_read _).first fun found => ?_
  cases found with
  | some i =>
    exact (allots_retain _).first fun _ => (allots_updateDict r _).first fun old =>
      allots_dropOld old
  | none =>
    refine Allots.first ?_ fun _ => allots_pure _
    exact allots_context.first fun _ => (allots_reserveDict r _).first fun _ =>
      (allots_retain _).first fun _ => allots_updateDict r _

theorem allots_change (c : Change) : (change c).Allots 1 := by
  have answering : ∀ {α : Type} {x : Act α} (g : α → Effect), x.Allots 1 →
      (x >>= fun a => pure (g a)).Allots 1 :=
    fun g h => h.bind (k := 0) fun _ => allots_pure _
  have sparing : ∀ {α : Type} {x : Act α} (g : α → Effect), x.Allots 0 →
      (x >>= fun a => pure (g a)).Allots 1 := fun g h => answering g (h.mono (Nat.zero_le 1))
  cases c with
  | allocate size zeroed => exact answering _ (allots_allocate size zeroed)
  | allocateStatic contents => exact sparing _ (allots_allocateStatic _)
  | staticFrom r =>
    exact sparing _ ((allots_exchangePayload r _).first allots_allocateStatic)
  | setPayload r contents => exact sparing _ (allots_setPayload r _)
  | swapPayloads a b => exact sparing _ (allots_swapPayloads a b)
  | writeRaw r offset bytes => exact sparing _ (allots_updatePayload r _)
  | pushScope =>
    exact sparing _ ((allots_modifyScopes _).first fun _ => allots_context.first fun _ =>
      (allots_notify _).first fun _ => allots_pure _)
  | increment family target =>
    cases target with
    | none => exact (allots_pure _).mono (Nat.zero_le 1)
    | some r => exact sparing _ (allots_increment family r)
  | decrement family keep target =>
    cases target with
    | none => exact (allots_pure _).mono (Nat.zero_le 1)
    | some r => exact sparing _ (allots_decrement family keep r)
  | newStr bytes => exact answering _ (allots_allocBuffered _ _)
  | newText content => exact answering _ (allots_allocBuffered _ _)
  | newList kind slots =>
    exact answering _ (allots_nextGrant.first fun _ => (allots_read _).first fun _ =>
      allots_allocContainer _ _)
  | listPush r v => exact sparing _ (allots_listPush r v)
  | listPop r => exact sparing _ (allots_listPop r)
  | listSet r index v => exact sparing _ (allots_listSet r index v)
  | newDict keyKind valueKind keys values =>
    exact answering _ (allots_nextGrant.first fun _ => allots_nextGrant.first fun _ =>
      (allots_read _).first fun _ => allots_allocContainer _ _)
  | dictInsert r key v => exact sparing _ (allots_dictInsert r key v)
  | newSet kind slots =>
    exact answering _ (allots_nextGrant.first fun _ => (allots_read _).first fun _ =>
      allots_allocContainer _ _)

end Act

open Context

def Deed.allocates : Deed → Bool
  | allocate _ _ => true
  | _ => false

theorem Context.Path.allocated_eq {cx cx' : Context} {ds : List Deed} (path : Path cx ds cx') :
    cx'.counters.allocated = cx.counters.allocated + ds.countP Deed.allocates := by
  induction path with
  | refl => rfl
  | move first _ ih =>
    rw [ih, List.countP_cons]
    cases first with
    | raise | raiseStatic | lower | lowerStatic | keep | defer | destroy | drain | allocateStatic
    | hook | store | enter | leave | bury | sweep => rfl
    | allocate | allocateContainer =>
      simp only [Deed.allocates, if_true]
      omega

theorem Turn.countP_allocates_le {cx cx' : Context} {grants : Grants} {b : Bindings} {t : Task}
    {ds : List Deed} {new : List Task} {fault : Option Fault}
    (turn : Turn cx grants b t ds cx' new fault) :
    ds.countP Deed.allocates ≤ 1 := by
  have bounded : ∀ {w : Workspace},
      w.context.counters.allocated ≤ cx.counters.allocated + 1 → Path cx ds w.context →
      ds.countP Deed.allocates ≤ 1 := by
    intro w le path
    rw [path.allocated_eq] at le
    omega
  cases turn with
  | asked | unbound | outermost | popping | unhooked | scripted | released | stuck | finished
  | bottom | closing | mismatched | unwound | unwinding | drained | hooked | opened | buried
  | exiting | left | draining => exact Nat.zero_le 1
  | @changed _ _ _ _ c effect w ds read ran path completed =>
    have le := Act.allots_change c ⟨cx, [], grants⟩
    unfold Act.Ends at le
    rw [ran] at le
    exact bounded le path
  | @refused _ _ _ _ c e w ds _ read ran path failed =>
    have le := Act.allots_change c ⟨cx, [], grants⟩
    unfold Act.Ends at le
    rw [ran] at le
    exact bounded le path
  | releasing => exact List.countP_le_length
  | swept path sweeps all =>
    rw [List.countP_eq_zero.mpr]
    · exact Nat.zero_le 1
    · intro d hd
      obtain ⟨x, rfl⟩ := sweeps d hd
      simp [Deed.allocates]

end ScopedHeap
