import ScopedHeap.Proofs.Turn

/-!
# Operations under different settings

Two contexts are alike if they differ in their settings only. `Act.Matches` relates an operation
with one that is carried out in an alike context under other settings: they come to the same and
leave alike contexts behind, unless the first one fails with an error that is excused. An operation
that matches itself with nothing excused is blind to the settings (`Act.Blind`). Most are; those
that look at the list limit match themselves under a higher limit, an overflow excused
(`matches_change`).
-/
namespace ScopedHeap

/-- The contexts have these settings and are the same in all else. -/
structure Context.Alike (s s' : Settings) (cx cx' : Context) : Prop where
  settings : cx.settings = s
  others : cx' = { cx with settings := s' }

/-- The contexts are alike, and the allocator will say the same. -/
structure Workspace.Alike (s s' : Settings) (w w' : Workspace) : Prop where
  context : w.context.Alike s s' w'.context
  grants : w'.grants = w.grants

def Error.isOverflow : Error → Bool
  | .capacityOverflow _ _ => true
  | _ => false

/-- A limit is raised, and the error tells that the lower one has been hit. -/
def Settings.Excuses (s s' : Settings) (e : Error) : Prop :=
  s.listLimit ≠ s'.listLimit ∧ e.isOverflow = true

/-- The second result is the first one again, or the first is an error that is excused. -/
def Echoes {α : Type} (excused : Error → Prop) (x y : Except Error α) : Prop :=
  (∃ e, x = .error e ∧ excused e) ∨ y = x

namespace Echoes

variable {α β : Type} {s s' : Settings} {excused : Error → Prop}

protected theorem rfl {x : Except Error α} : Echoes excused x x := Or.inr rfl

protected theorem bind {x y : Except Error α} {f g : α → Except Error β} (h : Echoes excused x y)
    (hf : ∀ a, Echoes excused (f a) (g a)) : Echoes excused (x >>= f) (y >>= g) := by
  rcases h with ⟨e, rfl, excuse⟩ | rfl
  · exact Or.inl ⟨e, rfl, excuse⟩
  · cases y with
    | ok a => exact hf a
    | error e => exact Echoes.rfl

theorem ofSlots (roomier : s.listLimit ≤ s'.listLimit) (grant : Grant) (kind : SlotKind)
    (slots : List Slot) : Echoes (s.Excuses s') (SlotList.ofSlots s.listLimit grant kind slots)
      (SlotList.ofSlots s'.listLimit grant kind slots) := by
  unfold SlotList.ofSlots
  by_cases long : s.listLimit < slots.length
  · rw [if_pos long]
    by_cases same : s.listLimit = s'.listLimit
    · rw [← same, if_pos long]
      exact Echoes.rfl
    · exact Or.inl ⟨_, rfl, same, rfl⟩
  · have short : ¬ s'.listLimit < slots.length := by omega
    rw [if_neg long, if_neg short]
    exact Echoes.rfl

theorem dictOfSlots (roomier : s.listLimit ≤ s'.listLimit) (keyGrant valueGrant : Grant)
    (keyKind valueKind : SlotKind) (keys values : List Slot) : Echoes (s.Excuses s')
      (SlotDict.ofSlots s.listLimit keyGrant valueGrant keyKind valueKind keys values)
      (SlotDict.ofSlots s'.listLimit keyGrant valueGrant keyKind valueKind keys values) := by
  unfold SlotDict.ofSlots
  by_cases uneven : keys.length ≠ values.length
  · rw [if_pos uneven, if_pos uneven]
    exact Echoes.rfl
  · rw [if_neg uneven, if_neg uneven]
    exact (Echoes.ofSlots roomier _ _ _).bind fun _ =>
      (Echoes.ofSlots roomier _ _ _).bind fun _ => Echoes.rfl

theorem reserve (roomier : s.listLimit ≤ s'.listLimit) (grant : Grant) (l : SlotList) :
    Echoes (s.Excuses s') (l.reserve s.listLimit grant) (l.reserve s'.listLimit grant) := by
  unfold SlotList.reserve
  by_cases room : l.length < l.capacity
  · rw [if_pos room, if_pos room]
    exact Echoes.rfl
  · rw [if_neg room, if_neg room]
    by_cases hit : s.listLimit / 2 ≤ l.capacity
    · rw [if_pos hit]
      by_cases same : s.listLimit = s'.listLimit
      · rw [← same, if_pos hit]
        exact Echoes.rfl
      · exact Or.inl ⟨_, rfl, same, rfl⟩
    · have below : ¬ s'.listLimit / 2 ≤ l.capacity := by omega
      rw [if_neg hit, if_neg below]
      exact Echoes.rfl

theorem updatePayload {f g : Payload → Except Error (α × Payload)}
    (h : ∀ payload, Echoes excused (f payload) (g payload)) (t : Table) (r : Ref) :
    Echoes excused (t.updatePayload r f) (t.updatePayload r g) :=
  Echoes.rfl.bind fun record => (h record.payload).bind fun _ => Echoes.rfl

end Echoes

namespace Act

variable {α β : Type} {s s' : Settings} {excused : Error → Prop} {x y : Act α} {f g : α → Act β}

/-- Two results that are the same, contexts that are alike taken for the same. -/
inductive Agree (s s' : Settings) : EStateM.Result Error Workspace α →
    EStateM.Result Error Workspace α → Prop
  | ok {a : α} {v v' : Workspace} (alike : v.Alike s s' v') :
      Agree s s' (.ok a v) (.ok a v')
  | error {e : Error} {v v' : Workspace} (alike : v.Alike s s' v') :
      Agree s s' (.error e v) (.error e v')

/-- Carried out in alike contexts, the operations agree, or the first fails and is excused. -/
def Matches (s s' : Settings) (excused : Error → Prop) (x y : Act α) : Prop :=
  ∀ w w' : Workspace, w.Alike s s' w' →
    (∃ e v, x w = .error e v ∧ excused e) ∨ Agree s s' (x w) (y w')

/-- The operation does not look at the settings. -/
def Blind (s s' : Settings) (x : Act α) : Prop := Matches s s' (fun _ => False) x x

theorem Blind.agree (h : x.Blind s s') {w w' : Workspace}
    (alike : w.Alike s s' w') : Agree s s' (x w) (x w') :=
  (h w w' alike).resolve_left fun ⟨_, _, _, excuse⟩ => excuse

theorem Blind.matches (h : x.Blind s s') : Matches s s' excused x x :=
  fun _ _ alike => Or.inr (h.agree alike)

theorem Matches.bind (hx : Matches s s' excused x y) (hf : ∀ a, Matches s s' excused (f a) (g a)) :
    Matches s s' excused (x >>= f) (y >>= g) := by
  intro w w' alike
  rw [bind_apply, bind_apply]
  rcases hx w w' alike with ⟨e, v, ran, excuse⟩ | agree
  · rw [ran]
    exact Or.inl ⟨e, v, rfl, excuse⟩
  · generalize x w = r at agree ⊢
    generalize y w' = r' at agree ⊢
    cases agree with
    | ok alike => exact hf _ _ _ alike
    | error alike => exact Or.inr (.error alike)

theorem Blind.bind (hx : x.Blind s s') (hf : ∀ a, (f a).Blind s s') : (x >>= f).Blind s s' :=
  Matches.bind hx hf

theorem Blind.first (hx : x.Blind s s') (hf : ∀ a, Matches s s' excused (f a) (g a)) :
    Matches s s' excused (x >>= f) (x >>= g) :=
  hx.matches.bind hf

theorem Blind.catching {f : Error → Act α} (hx : x.Blind s s') (hf : ∀ e, (f e).Blind s s') :
    (tryCatch x f).Blind s s' := by
  intro w w' alike
  rw [tryCatch_apply, tryCatch_apply]
  have agree := hx.agree alike
  generalize x w = r at agree ⊢
  generalize x w' = r' at agree ⊢
  cases agree with
  | ok alike => exact Or.inr (.ok alike)
  | error alike => exact hf _ _ _ alike

theorem blind_pure (a : α) : (pure a : Act α).Blind s s' := fun _ _ alike => Or.inr (.ok alike)

theorem blind_throw (e : Error) : (throw e : Act α).Blind s s' :=
  fun _ _ alike => Or.inr (.error alike)

theorem blind_notify (n : Notice) : (notify n).Blind s s' :=
  fun _ _ alike => Or.inr (.ok ⟨alike.context, alike.grants⟩)

theorem blind_nextGrant : nextGrant.Blind s s' := by
  intro w w' alike
  refine Or.inr ?_
  show Agree s s' (.ok (w.grants 0) { w with grants := w.grants.rest })
    (.ok (w'.grants 0) { w' with grants := w'.grants.rest })
  rw [alike.grants]
  exact .ok ⟨alike.context, rfl⟩

theorem blind_modify {t : Context → Context} (keeps : ∀ cx, (t cx).settings = cx.settings)
    (same : ∀ cx, t { cx with settings := s' } = { t cx with settings := s' }) :
    (modify fun w => { w with context := t w.context } : Act Unit).Blind s s' := by
  intro w w' alike
  refine Or.inr (.ok ⟨⟨(keeps _).trans alike.context.settings, ?_⟩, alike.grants⟩)
  show t w'.context = _
  rw [alike.context.others, same]

theorem blind_modifyTable (t : Table → Table) : (modifyTable t).Blind s s' :=
  blind_modify (t := fun cx => { cx with table := t cx.table }) (fun _ => rfl) fun _ => rfl

theorem blind_modifyScopes (t : ScopeStack → ScopeStack) : (modifyScopes t).Blind s s' :=
  blind_modify (t := fun cx => { cx with scopes := t cx.scopes }) (fun _ => rfl) fun _ => rfl

theorem blind_modifyCounters (t : Counters → Counters) : (modifyCounters t).Blind s s' :=
  blind_modify (t := fun cx => { cx with counters := t cx.counters }) (fun _ => rfl) fun _ => rfl

theorem matches_context_bind {f g : Context → Act β} (h : ∀ cx, cx.settings = s →
    Matches s s' excused (f cx) (g { cx with settings := s' })) :
    Matches s s' excused (context >>= f) (context >>= g) := by
  intro w w' alike
  have next := h w.context alike.context.settings w w' alike
  rw [← alike.context.others] at next
  exact next

/-- What goes on with the context is blind if it does not go on with the settings. -/
theorem blind_context_bind {f : Context → Act β}
    (same : ∀ cx, f { cx with settings := s' } = f cx) (h : ∀ cx, (f cx).Blind s s') :
    (context >>= f).Blind s s' := by
  refine matches_context_bind fun cx _ => ?_
  rw [same]
  exact h cx

theorem matches_read {t t' : Context → Except Error α}
    (h : ∀ cx, cx.settings = s → Echoes excused (t cx) (t' { cx with settings := s' })) :
    Matches s s' excused (read t) (read t') := by
  intro w w' alike
  rw [read_apply, read_apply, alike.context.others]
  rcases h w.context alike.context.settings with ⟨e, failed, excuse⟩ | same
  · rw [failed]
    exact Or.inl ⟨e, w, rfl, excuse⟩
  · rw [same]
    cases t w.context with
    | ok a => exact Or.inr (.ok alike)
    | error e => exact Or.inr (.error alike)

theorem blind_read {t : Context → Except Error α}
    (same : ∀ cx, t { cx with settings := s' } = t cx) : (read t).Blind s s' :=
  matches_read fun cx _ => Or.inr (same cx)

theorem matches_onTable {t t' : Table → Except Error (α × Table)}
    (h : ∀ table, Echoes excused (t table) (t' table)) :
    Matches s s' excused (onTable t) (onTable t') := by
  intro w w' alike
  have table : w'.context.table = w.context.table := by rw [alike.context.others]
  rw [onTable, onTable, table]
  rcases h w.context.table with ⟨e, failed, excuse⟩ | same
  · rw [failed]
    exact Or.inl ⟨e, w, rfl, excuse⟩
  · rw [same]
    cases t w.context.table with
    | ok p =>
      refine Or.inr (.ok ⟨⟨alike.context.settings, ?_⟩, alike.grants⟩)
      dsimp only
      rw [alike.context.others]
    | error e => exact Or.inr (.error alike)

theorem blind_onTable (t : Table → Except Error (α × Table)) : (onTable t).Blind s s' :=
  matches_onTable fun _ => Echoes.rfl

theorem blind_onScopes (t : ScopeStack → Except Error (α × ScopeStack)) :
    (onScopes t).Blind s s' := by
  intro w w' alike
  have scopes : w'.context.scopes = w.context.scopes := by rw [alike.context.others]
  rw [onScopes, onScopes, scopes]
  cases t w.context.scopes with
  | ok p =>
    refine Or.inr (.ok ⟨⟨alike.context.settings, ?_⟩, alike.grants⟩)
    dsimp only
    rw [alike.context.others]
  | error e => exact Or.inr (.error alike)

theorem blind_increment (family : Family) (r : Ref) : (increment family r).Blind s s' := by
  refine blind_context_bind (fun _ => rfl) fun cx => (blind_read fun _ => rfl).bind fun header => ?_
  dsimp only
  have count : (do
      modifyRecord r (Record.setRefcount (header.refcount + 1))
      notify (.incremented r family (header.refcount + 1)) : Act Unit).Blind s s' :=
    (blind_modifyTable _).bind fun _ => blind_notify _
  split
  · split
    · exact (blind_throw _).bind fun _ => count
    · exact count
  · exact blind_pure ()

theorem blind_unearth (r : Ref) : (unearth r).Blind s s' :=
  (blind_onTable _).bind fun _ => blind_pure _

theorem blind_release (r : Ref) : (release r).Blind s s' := by
  refine (blind_modifyTable _).bind fun _ => blind_context_bind (fun _ => rfl) fun cx =>
    (blind_read fun _ => rfl).bind fun header => ?_
  dsimp only
  split
  · exact (blind_unearth r).bind fun _ => blind_pure _
  · refine (blind_modifyTable _).bind fun _ => (blind_onScopes _).bind fun atHome => ?_
    have rest : (do
        modifyCounters fun c => { c with deferred := c.deferred + 1 }
        notify (.deferred r header.creationScope cx.current)
        return none : Act (Option Doomed)).Blind s s' :=
      (blind_modifyCounters _).bind fun _ => (blind_notify _).bind fun _ => blind_pure _
    split
    · exact (blind_notify _).bind fun _ => rest
    · exact rest

theorem blind_decrement (family : Family) (keep : Bool) (r : Ref) :
    (decrement family keep r).Blind s s' := by
  refine blind_context_bind (fun _ => rfl) fun cx => (blind_read fun _ => rfl).bind fun header => ?_
  dsimp only
  have count : (do
      modifyRecord r (Record.setRefcount (header.refcount - 1))
      notify (.decremented r family (header.refcount - 1))
      if header.refcount - 1 = 0 && !keep then release r else return none :
        Act (Option Doomed)).Blind s s' := by
    refine (blind_modifyTable _).bind fun _ => (blind_notify _).bind fun _ => ?_
    split
    · exact blind_release r
    · exact blind_pure none
  split
  · exact blind_pure none
  · split
    · exact (blind_throw _).bind fun _ => count
    · exact count

theorem blind_bury (r : Ref) (scope : ScopeId) (hooked : Bool) :
    (bury r scope hooked).Blind s s' :=
  (blind_modifyCounters _).bind fun _ => blind_notify _

theorem blind_unretain (refs : List Ref) : (unretain refs).Blind s s' := by
  induction refs with
  | nil => exact blind_pure ()
  | cons r rest ih =>
    refine Blind.bind ?_ fun _ => ih
    exact ((blind_decrement .heap true r).bind fun _ => blind_pure _).catching
      fun _ => blind_notify _

theorem blind_retainFrom (done refs : List Ref) : (retainFrom done refs).Blind s s' := by
  induction refs generalizing done with
  | nil => exact blind_pure ()
  | cons r rest ih =>
    refine Blind.bind ?_ fun _ => ih _
    exact (blind_increment .heap r).catching
      fun _ => (blind_unretain done).bind fun _ => blind_throw _

theorem checkSlot_under (cx : Context) (v : Slot) :
    checkSlot { cx with settings := s' } v = checkSlot cx v := by
  cases v with
  | object o | str o | text o => cases o <;> rfl
  | byte | float | uint | int => rfl

theorem blind_retain (slots : List Slot) : (retain slots).Blind s s' := by
  refine (blind_read fun cx => ?_).bind fun _ => blind_retainFrom _ _
  exact congrArg (fun check => slots.forM check) (funext (checkSlot_under cx))

theorem blind_allocRecord (payload : Payload) : (allocRecord payload).Blind s s' :=
  blind_context_bind (fun _ => rfl) fun _ => blind_nextGrant.bind fun _ =>
    (blind_onTable _).bind fun _ => (blind_modifyTable _).bind fun _ =>
      (blind_modifyCounters _).bind fun _ => (blind_notify _).bind fun _ => blind_pure _

theorem blind_allocate (size : Nat) (zeroed : Bool) : (allocate size zeroed).Blind s s' := by
  have room : (do
      let grant ← nextGrant
      let storage ← read fun _ => buffer grant (size - headerSize) (if zeroed then 0 else fillByte)
      allocRecord (.raw storage) : Act Ref).Blind s s' :=
    blind_nextGrant.bind fun _ => (blind_read fun _ => rfl).bind fun _ => blind_allocRecord _
  unfold allocate
  dsimp only
  split
  · exact (blind_throw _).bind fun _ => room
  · exact room

theorem blind_allocBuffered (bytes : Nat) (payload : Payload) :
    (allocBuffered bytes payload).Blind s s' := by
  refine blind_nextGrant.bind fun grant => ?_
  split
  · exact blind_allocRecord _
  · exact blind_throw _

theorem blind_installHook (r : Ref) (hook : Hook) : (installHook r hook).Blind s s' := by
  refine (blind_read fun _ => rfl).bind fun header => ?_
  dsimp only
  split
  · exact (blind_throw _).bind fun _ => blind_modifyTable _
  · exact blind_modifyTable _

theorem matches_updatePayload {f g : Payload → Except Error (α × Payload)}
    (h : ∀ payload, Echoes excused (f payload) (g payload)) (r : Ref) :
    Matches s s' excused (updatePayload r f) (updatePayload r g) :=
  matches_onTable fun table => Echoes.updatePayload h table r

theorem blind_exchangePayload (r : Ref) (payload : Payload) :
    (exchangePayload r payload).Blind s s' :=
  matches_updatePayload (fun _ => Echoes.rfl) r

theorem blind_setPayload (r : Ref) (payload : Payload) : (setPayload r payload).Blind s s' :=
  (blind_exchangePayload r payload).bind fun _ => blind_pure ()

theorem blind_allocateStatic (payload : Payload) : (allocateStatic payload).Blind s s' :=
  blind_nextGrant.bind fun _ => blind_onTable _

theorem blind_staticFrom (r : Ref) : (staticFrom r).Blind s s' :=
  (blind_exchangePayload r _).bind blind_allocateStatic

theorem blind_swapPayloads (a b : Ref) : (swapPayloads a b).Blind s s' :=
  (blind_exchangePayload b _).bind fun _ => (blind_exchangePayload a _).bind (blind_setPayload b)

theorem blind_writeRaw (r : Ref) (offset : Nat) (bytes : List UInt8) :
    (writeRaw r offset bytes).Blind s s' :=
  matches_updatePayload (fun _ => Echoes.rfl) r

theorem blind_pushScope : pushScope.Blind s s' :=
  (blind_modifyScopes _).bind fun _ => blind_context_bind (fun _ => rfl) fun _ =>
    (blind_notify _).bind fun _ => blind_pure _

theorem blind_unearthNext : unearthNext.Blind s s' := by
  refine (blind_onScopes _).bind fun next => ?_
  cases next with
  | none => exact blind_pure none
  | some r => exact (blind_unearth r).bind fun _ => blind_pure _

/-- The operation writes notices and does nothing else. -/
def Quiet (x : Act Unit) : Prop :=
  ∀ w, ∃ v, x w = .ok () v ∧ v.context = w.context ∧ v.grants = w.grants

/-- It makes no difference which of the two sides writes a report first. -/
theorem Matches.reporting {z : Act Unit} (quiet : z.Quiet) (h : Matches s s' excused x y)
    (here there : Bool) :
    Matches s s' excused (if here then z >>= fun _ => x else x)
      (if there then z >>= fun _ => y else y) := by
  have shift : ∀ (b : Bool) (x : Act α) (w : Workspace), ∃ v : Workspace,
      (if b then z >>= fun _ => x else x) w = x v ∧ v.context = w.context ∧
        v.grants = w.grants := by
    intro b x w
    cases b with
    | false => exact ⟨w, rfl, rfl, rfl⟩
    | true =>
      obtain ⟨v, ran, same⟩ := quiet w
      refine ⟨v, ?_, same⟩
      show (z >>= fun _ => x) w = x v
      rw [bind_apply, ran]
  intro w w' alike
  obtain ⟨v, ran, context, grants⟩ := shift here x w
  obtain ⟨v', ran', context', grants'⟩ := shift there y w'
  rw [ran, ran']
  refine h v v' ⟨?_, ?_⟩
  · rw [context, context']
    exact alike.context
  · rw [grants, grants']
    exact alike.grants

theorem quiet_auditScope (scope : ScopeId) : (auditScope scope).Quiet := by
  intro w
  show ∃ v, (if 0 < (w.context.liveIn scope).length then
    notify (.scopeEscaped scope (w.context.liveIn scope).length)
    else notify (.scopeClean scope)) w = _ ∧ _
  split
  · exact ⟨_, rfl, rfl, rfl⟩
  · exact ⟨_, rfl, rfl, rfl⟩

theorem blind_exitScope (scope : ScopeId) (drained : Nat) :
    (exitScope scope drained).Blind s s' := by
  refine matches_context_bind fun cx _ => ?_
  exact ((blind_onScopes _).bind fun _ => blind_notify _).reporting (quiet_auditScope scope) _ _

theorem blind_allocContainer (payload : Payload) (slots : List Slot) :
    (allocContainer payload slots).Blind s s' := by
  refine (blind_retain slots).bind fun _ => Blind.bind ?_ fun r =>
    (blind_installHook r _).bind fun _ => blind_pure r
  exact (blind_allocRecord payload).catching
    fun _ => (blind_unretain _).bind fun _ => blind_throw _

theorem blind_dropSlot (v : Slot) : (dropSlot v).Blind s s' := by
  unfold dropSlot
  cases v.ref? with
  | none => exact blind_pure none
  | some r => exact blind_decrement .heap false r

theorem blind_drop (old : Option Slot) : (old.elim (return none) dropSlot).Blind s s' := by
  cases old with
  | none => exact blind_pure none
  | some v => exact blind_dropSlot v

theorem matches_updateList {f g : SlotList → Except Error (α × SlotList)}
    (h : ∀ l, Echoes excused (f l) (g l)) (r : Ref) :
    Matches s s' excused (updateList r f) (updateList r g) :=
  matches_updatePayload (fun _ => Echoes.rfl.bind fun l => (h l).bind fun _ => Echoes.rfl) r

theorem matches_updateDict {f g : SlotDict → Except Error (α × SlotDict)}
    (h : ∀ d, Echoes excused (f d) (g d)) (r : Ref) :
    Matches s s' excused (updateDict r f) (updateDict r g) :=
  matches_updatePayload (fun _ => Echoes.rfl.bind fun d => (h d).bind fun _ => Echoes.rfl) r

theorem blind_updateList (r : Ref) (f : SlotList → Except Error (α × SlotList)) :
    (updateList r f).Blind s s' :=
  matches_updateList (fun _ => Echoes.rfl) r

theorem blind_updateDict (r : Ref) (f : SlotDict → Except Error (α × SlotDict)) :
    (updateDict r f).Blind s s' :=
  matches_updateDict (fun _ => Echoes.rfl) r

theorem blind_listPop (r : Ref) : (listPop r).Blind s s' :=
  (blind_updateList r _).bind fun v => (blind_dropSlot v).bind fun _ => blind_pure _

theorem blind_listSet (r : Ref) (index : Int) (v : Slot) : (listSet r index v).Blind s s' :=
  (blind_read fun _ => rfl).bind fun _ => (blind_retain [v]).bind fun _ =>
    (blind_updateList r _).bind blind_drop

theorem blind_dictReplace (r : Ref) (i : Nat) (v : Slot) : (dictReplace r i v).Blind s s' :=
  (blind_retain [v]).bind fun _ => (blind_updateDict r _).bind blind_drop

section Roomier

variable (roomier : s.listLimit ≤ s'.listLimit)

include roomier

theorem matches_newList (kind : SlotKind) (slots : List Slot) :
    Matches s s' (s.Excuses s') (newList kind slots) (newList kind slots) := by
  refine blind_nextGrant.first fun grant => Matches.bind (matches_read ?_) fun l =>
    (blind_allocContainer _ slots).matches
  rintro cx rfl
  exact Echoes.ofSlots roomier grant kind slots

theorem matches_newSet (kind : SlotKind) (slots : List Slot) :
    Matches s s' (s.Excuses s') (newSet kind slots) (newSet kind slots) := by
  refine blind_nextGrant.first fun grant => Matches.bind (matches_read ?_) fun l =>
    (blind_allocContainer _ slots).matches
  rintro cx rfl
  exact Echoes.ofSlots roomier grant kind slots

theorem matches_newDict (keyKind valueKind : SlotKind) (keys values : List Slot) :
    Matches s s' (s.Excuses s') (newDict keyKind valueKind keys values)
      (newDict keyKind valueKind keys values) := by
  refine blind_nextGrant.first fun keyGrant => blind_nextGrant.first fun valueGrant =>
    Matches.bind (matches_read ?_) fun d => (blind_allocContainer _ _).matches
  rintro cx rfl
  exact Echoes.dictOfSlots roomier keyGrant valueGrant keyKind valueKind keys values

theorem matches_listPush (r : Ref) (v : Slot) :
    Matches s s' (s.Excuses s') (listPush r v) (listPush r v) := by
  refine (blind_read fun _ => rfl).first fun _ =>
    (blind_read (checkSlot_under · v)).first fun _ => matches_context_bind ?_
  rintro cx rfl
  refine Matches.bind ?_ fun _ => Blind.matches <| (blind_retain [v]).bind fun _ =>
    (blind_updateList r _).bind fun _ => blind_notify _
  exact blind_nextGrant.first fun grant => matches_updateList
    (fun l => (Echoes.reserve roomier grant l).bind fun _ => Echoes.rfl) r

theorem matches_dictAppend (r : Ref) (key v : Slot) :
    Matches s s' (s.Excuses s') (dictAppend r key v) (dictAppend r key v) := by
  refine matches_context_bind ?_
  rintro cx rfl
  refine Matches.bind ?_ fun _ => Blind.matches <|
    (blind_retain [key, v]).bind fun _ => blind_updateDict r _
  refine blind_nextGrant.first fun keyGrant => Matches.bind ?_ fun _ =>
    blind_nextGrant.first fun valueGrant => ?_
  · exact matches_updateDict
      (fun d => (Echoes.reserve roomier keyGrant d.keys).bind fun _ => Echoes.rfl) r
  · exact matches_updateDict
      (fun d => (Echoes.reserve roomier valueGrant d.values).bind fun _ => Echoes.rfl) r

theorem matches_dictInsert (r : Ref) (key v : Slot) :
    Matches s s' (s.Excuses s') (dictInsert r key v) (dictInsert r key v) := by
  refine (blind_read fun _ => rfl).first fun found => ?_
  cases found with
  | some i => exact (blind_dictReplace r i v).matches
  | none => exact (matches_dictAppend roomier r key v).bind fun _ => (blind_pure none).matches

/-- Under a higher list limit a change comes to the same, unless it hits the lower one. -/
theorem matches_change (c : Change) : Matches s s' (s.Excuses s') (change c) (change c) := by
  cases c with
  | allocate size zeroed => exact (blind_allocate size zeroed).first fun _ => (blind_pure _).matches
  | allocateStatic contents =>
    exact (blind_allocateStatic _).first fun _ => (blind_pure _).matches
  | staticFrom r => exact (blind_staticFrom r).first fun _ => (blind_pure _).matches
  | setPayload r contents => exact (blind_setPayload r _).first fun _ => (blind_pure _).matches
  | swapPayloads a b => exact (blind_swapPayloads a b).first fun _ => (blind_pure _).matches
  | writeRaw r offset bytes =>
    exact (blind_writeRaw r offset bytes).first fun _ => (blind_pure _).matches
  | pushScope => exact blind_pushScope.first fun _ => (blind_pure _).matches
  | increment family target =>
    cases target with
    | none => exact (blind_pure _).matches
    | some r => exact (blind_increment family r).first fun _ => (blind_pure _).matches
  | decrement family keep target =>
    cases target with
    | none => exact (blind_pure _).matches
    | some r => exact (blind_decrement family keep r).first fun _ => (blind_pure _).matches
  | newStr bytes => exact (blind_allocBuffered _ _).first fun _ => (blind_pure _).matches
  | newText content => exact (blind_allocBuffered _ _).first fun _ => (blind_pure _).matches
  | newList kind slots =>
    exact (matches_newList roomier kind slots).bind fun _ => (blind_pure _).matches
  | listPush r v => exact (matches_listPush roomier r v).bind fun _ => (blind_pure _).matches
  | listPop r => exact (blind_listPop r).first fun _ => (blind_pure _).matches
  | listSet r index v => exact (blind_listSet r index v).first fun _ => (blind_pure _).matches
  | newDict keyKind valueKind keys values =>
    exact (matches_newDict roomier keyKind valueKind keys values).bind
      fun _ => (blind_pure _).matches
  | dictInsert r key v =>
    exact (matches_dictInsert roomier r key v).bind fun _ => (blind_pure _).matches
  | newSet kind slots =>
    exact (matches_newSet roomier kind slots).bind fun _ => (blind_pure _).matches

end Roomier

end Act

end ScopedHeap
