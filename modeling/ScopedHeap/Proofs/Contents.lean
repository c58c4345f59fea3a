import ScopedHeap.Proofs.History
import ScopedHeap.Proofs.Ledger

/-!
# Where contents come from

A change leaves a payload where it is, moves it into another record, or makes a new one of it.
`Update.source` tells under which reference the payload was that is found under `x` after a change,
and `Update.Descends` lists the ways in which it can have become what it is. There are no others
(`ends_descends`), so an invariant of payloads is proved by going through them.
-/
namespace ScopedHeap

open Context

/-- Deeds that bring no payload into the table. -/
def Deed.Barren : Deed → Prop
  | store _ _ _ | allocate _ _ | allocateStatic _ _ => False
  | raise _ | lower _ | keep _ | defer _ | destroy _ | drain _ | hook _ _ | enter | leave | bury
  | sweep _ => True

def Table.payload? (t : Table) (r : Ref) : Option Payload := (t.find? r).map Record.payload

namespace Table

variable {t : Table} {r : Ref} {record : Record}

theorem payload?_of_find? (found : t.find? r = some record) :
    t.payload? r = some record.payload := by
  rw [payload?, found]
  rfl

theorem payload?_eq_some {p : Payload} :
    t.payload? r = some p ↔ ∃ record, t.find? r = some record ∧ record.payload = p :=
  Option.map_eq_some_iff

theorem payload?_eq_bare (t : Table) (r : Ref) :
    t.payload? r = (t.bare r).map Record.payload := by
  rw [payload?, bare, Option.map_map]
  rfl

theorem payload?_setPayload (found : t.find? r = some record) (q : Payload) (x : Ref) :
    (t.modifyAt r.index (Record.setPayload q)).payload? x =
      if x = r then some q else t.payload? x := by
  rw [payload?, find?_modifyAt_of_find? found]
  split
  · rfl
  · rfl

theorem payload?_raiseAll {refs : List Ref} (found : ∀ r ∈ refs, (t.find? r).isSome = true)
    (x : Ref) : (t.raiseAll refs).payload? x = t.payload? x := by
  rw [payload?, payload?, find?_raiseAll found, Option.map_map]
  exact congrArg (fun f => (t.find? x).map f) (funext fun record => record.payload_raised _)

end Table

namespace Context

variable {cx cx' cx'' : Context} {r : Ref} {record : Record} {p q : Payload} {d : Deed}
  {P Q : Payload → Prop}

theorem Sound.paired (sound : cx.Sound) (found : cx.table.payload? r = some p) : p.Paired := by
  obtain ⟨record, there, rfl⟩ := Table.payload?_eq_some.mp found
  exact (sound.proper r _ (Table.bare_of_find? there)).paired

/-- Every payload was there before, in the same place. -/
def Inherits (cx cx' : Context) : Prop :=
  ∀ x p, cx'.table.payload? x = some p → cx.table.payload? x = some p

/-- The only payload that may be new is `q`, under `r`. -/
def Puts (cx : Context) (r : Ref) (q : Payload) (cx' : Context) : Prop :=
  ∀ x p, cx'.table.payload? x = some p → if x = r then p = q else cx.table.payload? x = some p

/-- The only payload that may be new is one with the property `P`, in a new record `r`. -/
def Adds (cx : Context) (P : Payload → Prop) (r : Ref) (cx' : Context) : Prop :=
  cx.table.payload? r = none ∧ ∀ x p, cx'.table.payload? x = some p →
    if x = r then P p else cx.table.payload? x = some p

theorem Inherits.refl (cx : Context) : cx.Inherits cx := fun _ _ h => h

theorem Inherits.trans (h : cx.Inherits cx') (k : cx'.Inherits cx'') : cx.Inherits cx'' :=
  fun x p found => h x p (k x p found)

theorem Puts.inherits (h : cx.Puts r q cx') (k : cx'.Inherits cx'') : cx.Puts r q cx'' :=
  fun x p found => h x p (k x p found)

theorem Puts.puts (h : cx.Puts r p cx') (k : cx'.Puts r q cx'') : cx.Puts r q cx'' := by
  intro x o found
  have after := k x o found
  by_cases e : x = r
  · rw [if_pos e] at after ⊢
    exact after
  · rw [if_neg e] at after ⊢
    have before := h x o after
    rwa [if_neg e] at before

theorem Inherits.puts (h : cx.Inherits cx') (k : cx'.Puts r q cx'') : cx.Puts r q cx'' := by
  intro x p found
  have after := k x p found
  by_cases e : x = r
  · rw [if_pos e] at after ⊢
    exact after
  · rw [if_neg e] at after ⊢
    exact h x p after

theorem Adds.mono (h : cx.Adds P r cx') (imp : ∀ p, P p → Q p) : cx.Adds Q r cx' := by
  refine ⟨h.1, ?_⟩
  intro x p found
  have after := h.2 x p found
  by_cases e : x = r
  · rw [if_pos e] at after ⊢
    exact imp p after
  · rw [if_neg e] at after ⊢
    exact after

theorem Inherits.adds (h : cx.Inherits cx') (absent : cx.table.payload? r = none)
    (k : cx'.Adds P r cx'') : cx.Adds P r cx'' := by
  refine ⟨absent, ?_⟩
  intro x p found
  have after := k.2 x p found
  by_cases e : x = r
  · rw [if_pos e] at after ⊢
    exact after
  · rw [if_neg e] at after ⊢
    exact h x p after

theorem puts_of_store (found : cx.table.find? r = some record) :
    cx.Puts r q { cx with table := cx.table.modifyAt r.index (Record.setPayload q) } := by
  intro x p after
  rw [Table.payload?_setPayload found] at after
  by_cases e : x = r
  · rw [if_pos e] at after ⊢
    exact (Option.some.inj after).symm
  · rw [if_neg e] at after ⊢
    exact after

theorem inherits_raiseAll {refs : List Ref} (can : ∀ r ∈ refs, cx.table.CanRaise r) :
    cx.Inherits { cx with table := cx.table.raiseAll refs } := by
  intro x p after
  rwa [Table.payload?_raiseAll fun r hr => (can r hr).isSome] at after

theorem Move.inherits (move : Move cx d cx') (sound : cx.Sound) (barren : d.Barren) :
    cx.Inherits cx' := by
  intro x p after
  rw [Table.payload?_eq_bare] at after ⊢
  have fate := move.fate sound x
  generalize cx.table.bare x = before at fate ⊢
  generalize cx'.table.bare x = shown at fate after
  cases fate with
  | same | raised | lowered | kept | deferred | hooked => exact after
  | stored | allocated | furnished | settled => exact absurd barren id
  | destroyed | drained | swept => cases after

theorem Path.inherits {ds : List Deed} (path : Path cx ds cx') (sound : cx.Sound)
    (barren : ∀ d ∈ ds, d.Barren) : cx.Inherits cx' := by
  induction path with
  | refl cx => exact .refl cx
  | @move a b c d ds first _ ih =>
    exact (first.inherits sound (barren d List.mem_cons_self)).trans
      (ih (first.sound sound) fun d hd => barren d (List.mem_cons_of_mem _ hd))

theorem fate_of_born {current : ScopeId} {x : Ref} {before after : Option Record}
    (fate : Fate current x d before after)
    (born : d = .allocate r p ∨ d = .allocateStatic r p) :
    after = before ∨ x = r ∧ after.map Record.payload = some p := by
  rcases born with rfl | rfl
  · cases fate with
    | same => exact Or.inl rfl
    | allocated | furnished => exact Or.inr ⟨rfl, rfl⟩
  · cases fate with
    | same => exact Or.inl rfl
    | settled => exact Or.inr ⟨rfl, rfl⟩

theorem Move.adds (move : Move cx d cx') (sound : cx.Sound)
    (born : d = .allocate r p ∨ d = .allocateStatic r p) : cx.Adds (· = p) r cx' := by
  have absent := move.absent_of_allocate sound born
  refine ⟨by rw [Table.payload?_eq_bare, absent]; rfl, ?_⟩
  intro x q found
  rw [Table.payload?_eq_bare] at found ⊢
  rcases fate_of_born (move.fate sound x) born with same | ⟨rfl, new⟩
  · rw [same] at found
    by_cases e : x = r
    · rw [e, absent] at found
      cases found
    · rwa [if_neg e]
  · rw [if_pos rfl]
    exact Option.some.inj (found.symm.trans new)

end Context

theorem Context.isContainer_new {settings : Settings} {x : Ref} {p : Payload}
    (found : (Context.new settings).table.payload? x = some p) : p.isContainer = false := by
  have texts : ∀ i record, (Context.new settings).table.recordAt? i = some record →
      record.payload.isContainer = false := by
    intro i record found
    match i with
    | 0 | 1 =>
      cases found
      rfl
    | i + 2 => cases found
  obtain ⟨record, there, rfl⟩ := Table.payload?_eq_some.mp found
  exact texts _ _ (Table.recordAt?_of_find? there)

/-- The new record that a change answers with. -/
def Effect.born? (effect : Effect) : Option Ref :=
  match effect.answer with
  | .ref r => some r
  | _ => none

namespace Update

/-- Where the payload that is under `x` after a change was before it. What a new record holds was
nowhere, unless the record has been made to take over what another one held. -/
def source (c : Change) : Except Error Effect → Ref → Option Ref
  | .error _, x => some x
  | .ok effect, x =>
    match c with
    | .swapPayloads a b => if x = b then some a else if x = a then some b else some x
    | .staticFrom r => if effect.born? = some x then some r else some x
    | _ => if effect.born? = some x then none else some x

/-- Payloads with which a change fills a new record. -/
inductive Makes (limit : Nat) : Change → Payload → Prop
  | plain {c : Change} {p : Payload} (plain : p.isContainer = false) : Makes limit c p
  | list {grant : Grant} {kind : SlotKind} {slots : List Slot} {l : SlotList}
      (laid : SlotList.ofSlots limit grant kind slots = .ok l) :
      Makes limit (.newList kind slots) (.list l)
  | dict {keyGrant valueGrant : Grant} {keyKind valueKind : SlotKind} {keys values : List Slot}
      {d : SlotDict}
      (laid : SlotDict.ofSlots limit keyGrant valueGrant keyKind valueKind keys values = .ok d) :
      Makes limit (.newDict keyKind valueKind keys values) (.dict d)
  | set {grant : Grant} {kind : SlotKind} {slots : List Slot} {l : SlotList}
      (laid : SlotList.ofSlots limit grant kind slots = .ok l) :
      Makes limit (.newSet kind slots) (.set ⟨l⟩)

/-- What a change makes of the payload of the record that it works on. -/
inductive Reshapes (cx : Context) (x : Ref) : Change → Payload → Payload → Prop
  | write {storage : Storage} {offset : Nat} {bytes : List UInt8} :
      Reshapes cx x (.writeRaw x offset bytes) (.raw storage) (.raw (storage.write offset bytes))
  /-- A list makes room for a slot that is refused in the end. -/
  | grow {l k : SlotList} {v : Slot} (grows : l.Grows cx.listLimit k) :
      Reshapes cx x (.listPush x v) (.list l) (.list k)
  | push {l k : SlotList} {v : Slot} (fits : l.checkKind v = .ok ())
      (grows : l.Grows cx.listLimit k) :
      Reshapes cx x (.listPush x v) (.list l) (.list (k.push v))
  | pop {l k : SlotList} {v : Slot} (popped : l.pop = .ok (v, k)) :
      Reshapes cx x (.listPop x) (.list l) (.list k)
  | set {l : SlotList} {index : Int} {i : Nat} {v : Slot} (fits : l.checkKind v = .ok ())
      (position : l.position index = .ok i) :
      Reshapes cx x (.listSet x index v) (.list l) (.list (l.replace i v))
  | replace {d : SlotDict} {key v : Slot} {i : Nat} (fits : d.values.checkKind v = .ok ())
      (found : cx.table.search d.keys key = .ok (some i)) :
      Reshapes cx x (.dictInsert x key v) (.dict d)
        (.dict { d with values := d.values.replace i v })
  /-- A dict makes room for an entry that is refused in the end. -/
  | widen {d e : SlotDict} {key v : Slot} (grows : d.Grows cx.listLimit e) :
      Reshapes cx x (.dictInsert x key v) (.dict d) (.dict e)
  | append {d e : SlotDict} {key v : Slot} (fits : d.values.checkKind v = .ok ())
      (absent : cx.table.search d.keys key = .ok none) (grows : d.Grows cx.listLimit e) :
      Reshapes cx x (.dictInsert x key v) (.dict d) (.dict ⟨e.keys.push key, e.values.push v⟩)

/-- How the payload `p` has come under `x` by a change with outcome `a`. -/
inductive Descends (c : Change) (cx : Context) (grants : Grants) (a : Except Error Effect) (x : Ref)
    (p : Payload) : Prop
  | moved {y : Ref} (source : c.source a x = some y) (before : cx.table.payload? y = some p)
  | reshaped {q : Payload} (source : c.source a x = some x)
      (before : cx.table.payload? x = some q) (shape : c.Reshapes cx x q p)
  /-- The memory has run out between the keys of a dict and its values. -/
  | starved {key v : Slot} {d e : SlotDict} {err : Error} (change : c = .dictInsert x key v)
      (outcome : a = .error err) (before : cx.table.payload? x = some (.dict d))
      (starves : d.Starves cx.listLimit grants e err) (after : p = .dict e)
  | made (source : c.source a x = none) (absent : cx.table.payload? x = none)
      (made : c.Makes cx.listLimit p)
  | overwritten (exchanges : c.exchangesPayload = true) (plain : p.isContainer = false)

/-- Every payload in `cx'` has come there by the change. -/
def Descended (c : Change) (cx : Context) (grants : Grants) (a : Except Error Effect)
    (cx' : Context) : Prop :=
  ∀ x p, cx'.table.payload? x = some p → c.Descends cx grants a x p

end Update

namespace Context

variable {cx cx' : Context} {grants : Grants} {c : Change} {a : Except Error Effect} {r : Ref}
  {p q : Payload}

theorem Inherits.descended (h : cx.Inherits cx') (stays : ∀ x, c.source a x = some x) :
    c.Descended cx grants a cx' :=
  fun x p found => .moved (stays x) (h x p found)

theorem Puts.descended (h : cx.Puts r q cx') (stays : ∀ x, c.source a x = some x)
    (put : c.Descends cx grants a r q) : c.Descended cx grants a cx' := by
  intro x o found
  have after := h x o found
  by_cases e : x = r
  · rw [if_pos e] at after
    rw [e, after]
    exact put
  · rw [if_neg e] at after
    exact .moved (stays x) after

/-- Nothing is new but what the change has made of the payload of `r`, if anything. -/
def Works (c : Change) (r : Ref) (cx cx' : Context) : Prop :=
  cx.Inherits cx' ∨ ∃ p q, cx.table.payload? r = some p ∧ c.Reshapes cx r p q ∧ cx.Puts r q cx'

theorem Works.descended (h : Works c r cx cx') (stays : ∀ x, c.source a x = some x) :
    c.Descended cx grants a cx' := by
  rcases h with inherits | ⟨p, q, before, shape, puts⟩
  · exact inherits.descended stays
  · exact puts.descended stays (.reshaped (stays r) before shape)

theorem Adds.descended {effect : Effect} (h : cx.Adds (c.Makes cx.listLimit) r cx')
    (born : ∀ x, c.source (.ok effect) x = if some r = some x then none else some x) :
    c.Descended cx grants (.ok effect) cx' := by
  intro x p found
  have after := h.2 x p found
  have source := born x
  by_cases e : x = r
  · rw [if_pos e] at after
    rw [e] at source ⊢
    rw [if_pos rfl] at source
    exact .made source h.1 after
  · rw [if_neg e] at after
    rw [if_neg fun h => e (Option.some.inj h).symm] at source
    exact .moved source after

end Context

namespace Act

variable {α : Type} {w : Workspace} {c : Change} {r : Ref}

theorem ends_increment_inherits (family : Family) (r : Ref) (w : Workspace)
    (sound : w.context.Sound) :
    (increment family r).Ends w fun _ cx => w.context.Inherits cx := by
  apply (ends_increment_client family r w).mono
  intro a cx h
  cases a with
  | ok =>
    refine h.inherits sound ?_
    intro d hd
    split at hd
    · rw [List.mem_singleton.mp hd]
      trivial
    · cases hd
  | error e =>
    rw [show cx = w.context from h]
    exact .refl _

theorem ends_decrement_inherits (family : Family) (keep : Bool) (r : Ref) (w : Workspace)
    (sound : w.context.Sound) :
    (decrement family keep r).Ends w fun _ cx => w.context.Inherits cx := by
  apply (ends_decrement family keep r w).mono
  intro a cx h
  cases h with
  | dangling | underflow | ignored => exact .refl _
  | lowered found tracked count _ =>
    exact (Move.keep found (Family.creationScope_ne_of_tracks tracked) count).inherits sound trivial
  | destroyed found tracked last _ inner removed =>
    exact (Move.destroy found (Family.creationScope_ne_of_tracks tracked) last inner
      removed).inherits sound trivial
  | deferred found tracked last _ outer =>
    exact (Move.defer found (Family.creationScope_ne_of_tracks tracked) last outer).inherits sound
      trivial

theorem ends_dropSlot_inherits (v : Slot) (w : Workspace) (sound : w.context.Sound) :
    (dropSlot v).Ends w fun _ cx => w.context.Inherits cx := by
  unfold dropSlot
  cases v.ref? with
  | none => exact ends_pure (.refl _)
  | some r => exact ends_decrement_inherits .heap false r w sound

theorem ends_allocRecord_adds {p : Payload} (plain : p.isContainer = false) (w : Workspace)
    (sound : w.context.Sound) : (allocRecord p).Ends w
      (Either (w.context.Adds (·.isContainer = false)) w.context.Inherits) := by
  apply ends_allocRecord
  · exact fun e => .refl _
  · intro grant r table inserted
    refine ((Move.allocate inserted plain).adds sound (Or.inl rfl)).mono ?_
    rintro _ rfl
    exact plain

theorem ends_allocate_adds (size : Nat) (zeroed : Bool) (w : Workspace) (sound : w.context.Sound) :
    (allocate size zeroed).Ends w
      (Either (w.context.Adds (·.isContainer = false)) w.context.Inherits) := by
  apply ends_allocate
  · exact fun e => .refl _
  · exact fun storage grants => ends_allocRecord_adds rfl _ sound

theorem ends_allocBuffered_adds {p : Payload} (bytes : Nat) (plain : p.isContainer = false)
    (w : Workspace) (sound : w.context.Sound) : (allocBuffered bytes p).Ends w
      (Either (w.context.Adds (·.isContainer = false)) w.context.Inherits) := by
  apply ends_allocBuffered
  · exact fun e => .refl _
  · exact fun grants => ends_allocRecord_adds plain _ sound

theorem ends_allocContainer_adds {p : Payload} (slots : List Slot) (paired : p.Paired)
    (w : Workspace) (sound : w.context.Sound) :
    (allocContainer p slots).Ends w (Either (w.context.Adds (· = p)) w.context.Inherits) := by
  apply ends_allocContainer sound
  · exact fun e => .refl _
  · intro held grant r table path inserted
    have raises : ∀ d ∈ (slots.filterMap Slot.ref?).map Deed.raise, ∃ x, d = .raise x := by
      intro d hd
      obtain ⟨x, _, rfl⟩ := List.mem_map.mp hd
      exact ⟨x, rfl⟩
    have inherited : w.context.Inherits held := by
      refine path.inherits sound ?_
      intro d hd
      obtain ⟨x, rfl⟩ := raises d hd
      trivial
    have added := (Move.allocateContainer inserted paired).adds (path.sound sound) (Or.inl rfl)
    refine inherited.adds ?_ added
    -- counting takes nothing out, so what is absent now has been absent before
    have absent := added.1
    rw [Table.payload?_eq_bare, Option.map_eq_none_iff] at absent ⊢
    cases present : w.context.table.bare r with
    | none => rfl
    | some record =>
      obtain ⟨d, hd, _, removed⟩ := path.removed sound (by rw [present]; rfl) absent
      obtain ⟨x, rfl⟩ := raises d hd
      cases removed

theorem ends_allocateStatic_adds {p : Payload} (paired : p.Paired) (w : Workspace)
    (sound : w.context.Sound) :
    (allocateStatic p).Ends w (Either (w.context.Adds (· = p)) fun cx => cx = w.context) := by
  apply ends_allocateStatic
  · exact fun e => rfl
  · intro grant r table inserted
    exact (Move.allocateStatic inserted paired).adds sound (Or.inr rfl)

theorem ends_intake_puts {α β : Type} {F : Payload → Except Error (α × Payload)} {g : α → Act β}
    {R : Except Error β → Context → Prop} {record : Record} {slots : List Slot} {a : α}
    {q : Payload} (sound : w.context.Sound) (found : w.context.table.find? r = some record)
    (passed : F record.payload = .ok (a, q)) (paired : q.Paired)
    (failed : ∀ e, R (.error e) w.context)
    (stored : ∀ v : Workspace, w.context.Puts r q v.context → v.context.Sound → (g a).Ends v R) :
    (retain slots >>= fun _ => updatePayload r F >>= g).Ends w R := by
  apply ends_intake found passed failed
  intro v can hv
  have after : (w.context.table.raiseAll (slots.filterMap Slot.ref?)).find? r =
      some (record.raised ((slots.filterMap Slot.ref?).count r)) := by
    rw [Table.find?_raiseAll fun r hr => (can r hr).isSome, found]
    rfl
  apply stored v
  · rw [hv]
    exact (inherits_raiseAll can).puts (puts_of_store after)
  · rw [hv]
    exact (Move.store after paired).sound ((path_raiseAll can).sound sound)

theorem works_writeRaw (r : Ref) (offset : Nat) (bytes : List UInt8) (w : Workspace) :
    (writeRaw r offset bytes).Ends w fun _ cx =>
      Works (.writeRaw r offset bytes) r w.context cx := by
  apply ends_updatePayload
  · exact fun e _ => Or.inl (.refl _)
  · intro record a q found passed
    obtain ⟨storage, raw, h⟩ := bind_eq_ok.mp passed
    cases h
    refine Or.inr ⟨_, _, Table.payload?_of_find? found, ?_, puts_of_store found⟩
    cases payload : record.payload with
    | raw =>
      rw [payload] at raw
      cases raw
      exact .write
    | str | text | list | dict | set =>
      rw [payload] at raw
      cases raw

theorem works_listPush (r : Ref) (v : Slot) (w : Workspace) (sound : w.context.Sound) :
    (listPush r v).Ends w fun _ cx => Works (.listPush r v) r w.context cx := by
  have failed : Works (.listPush r v) r w.context w.context := Or.inl (.refl _)
  unfold listPush
  apply ends_read_bind (fun _ _ => failed)
  intro _ fits
  apply ends_read_bind (fun _ _ => failed)
  intro _ _
  apply ends_context_bind
  apply ends_reserveList_bind (fun _ => failed)
  intro record l k v₁ found payload grows hv₁
  have before : w.context.table.payload? r = some (.list l) := by
    rw [Table.payload?_of_find? found, payload]
  have grown : w.context.Puts r (.list k) v₁.context := by
    rw [hv₁]
    exact puts_of_store found
  have stored : Move w.context (.store r record.payload (.list k)) v₁.context := by
    rw [hv₁]
    exact .store found trivial
  have found₁ : v₁.context.table.find? r = some (record.setPayload (.list k)) := by
    rw [hv₁, Table.find?_modifyAt_self found]
  refine ends_intake_puts (q := .list (k.push v)) (stored.sound sound) found₁
    (onList_eq_ok.mpr ⟨k, _, rfl, rfl, rfl⟩) trivial ?_ ?_
  · exact fun e => Or.inr ⟨_, _, before, .grow grows, grown⟩
  · intro v₂ pushed _
    obtain ⟨l', hl', fits⟩ := bind_eq_ok.mp fits
    obtain ⟨record', found', payload'⟩ := list_eq_ok hl'
    obtain rfl := Option.some.inj (found.symm.trans found')
    rw [payload] at payload'
    cases payload'
    exact ends_notify (Or.inr ⟨_, _, before, .push fits grows, grown.puts pushed⟩)

theorem works_listPop (r : Ref) (w : Workspace) (sound : w.context.Sound) :
    (listPop r).Ends w fun _ cx => Works (.listPop r) r w.context cx := by
  unfold listPop
  apply ends_updatePayload_bind
  · exact fun e _ => Or.inl (.refl _)
  · intro record v q v₁ found passed hv₁
    obtain ⟨l, k, payload, popped, rfl⟩ := onList_eq_ok.mp passed
    have before : w.context.table.payload? r = some (.list l) := by
      rw [Table.payload?_of_find? found, payload]
    have put : w.context.Puts r (.list k) v₁.context := by
      rw [hv₁]
      exact puts_of_store found
    have stored : Move w.context (.store r record.payload (.list k)) v₁.context := by
      rw [hv₁]
      exact .store found trivial
    have worked : ∀ cx, v₁.context.Inherits cx → Works (.listPop r) r w.context cx :=
      fun cx inherits => Or.inr ⟨_, _, before, .pop popped, put.inherits inherits⟩
    exact (ends_dropSlot_inherits v v₁ (stored.sound sound)).map _ (fun _ => worked) fun _ => worked

theorem ends_dropSlot_puts {cx : Context} {q : Payload} {v : Workspace} {old : Option Slot}
    (put : cx.Puts r q v.context) (sound : v.context.Sound) :
    (old.elim (pure none) dropSlot).Ends v fun _ cx' => cx.Puts r q cx' := by
  cases old with
  | none => exact ends_pure put
  | some s =>
    apply (ends_dropSlot_inherits s v sound).mono
    exact fun _ _ inherits => put.inherits inherits

theorem works_listSet (r : Ref) (index : Int) (v : Slot) (w : Workspace)
    (sound : w.context.Sound) :
    (listSet r index v).Ends w fun _ cx => Works (.listSet r index v) r w.context cx := by
  have failed : Works (.listSet r index v) r w.context w.context := Or.inl (.refl _)
  unfold listSet
  apply ends_read_bind (fun _ _ => failed)
  intro i hi
  obtain ⟨l, hl, hi⟩ := bind_eq_ok.mp hi
  obtain ⟨_, fits, hi⟩ := bind_eq_ok.mp hi
  obtain ⟨record, found, payload⟩ := list_eq_ok hl
  have before : w.context.table.payload? r = some (.list l) := by
    rw [Table.payload?_of_find? found, payload]
  refine ends_intake_puts (q := .list (l.replace i v)) sound found
    (onList_eq_ok.mpr ⟨l, _, payload, rfl, rfl⟩) trivial (fun _ => failed) ?_
  intro v₁ put sound₁
  apply (ends_dropSlot_puts put sound₁).mono
  exact fun _ _ put => Or.inr ⟨_, _, before, .set fits hi, put⟩

theorem ends_dictReplace_puts {i : Nat} {v : Slot} {record : Record} {d : SlotDict}
    (sound : w.context.Sound) (found : w.context.table.find? r = some record)
    (payload : record.payload = .dict d) :
    (dictReplace r i v).Ends w (Either
      (fun _ cx => w.context.Puts r (.dict { d with values := d.values.replace i v }) cx)
      fun cx => w.context.Inherits cx ∨
        w.context.Puts r (.dict { d with values := d.values.replace i v }) cx) := by
  unfold dictReplace
  refine ends_intake_puts (q := .dict { d with values := d.values.replace i v }) sound found
    (onDict_eq_ok.mpr ⟨d, _, payload, rfl, rfl⟩) ?_ (fun _ => Or.inl (.refl _)) ?_
  · exact (sound.paired_dict found payload).replace i v
  · intro v₁ put sound₁
    apply (ends_dropSlot_puts put sound₁).mono
    intro a cx put
    cases a with
    | ok => exact put
    | error => exact Or.inr put

/-- What becomes of the dict `d` under `r` to which an entry is appended. -/
def Appends (w : Workspace) (r : Ref) (d : SlotDict) (key v : Slot) :
    Except Error Unit → Context → Prop
  | .ok _, cx => ∃ e, d.Grows w.context.listLimit e ∧
      w.context.Puts r (.dict ⟨e.keys.push key, e.values.push v⟩) cx
  | .error err, cx => w.context.Inherits cx ∨
      ∃ e, (d.Grows w.context.listLimit e ∨ d.Starves w.context.listLimit w.grants e err) ∧
        w.context.Puts r (.dict e) cx

theorem ends_dictAppend_appends {key v : Slot} {record : Record} {d : SlotDict}
    (sound : w.context.Sound) (found : w.context.table.find? r = some record)
    (payload : record.payload = .dict d) :
    (dictAppend r key v).Ends w (Appends w r d key v) := by
  have same : ∀ {record' : Record} {d' : SlotDict}, w.context.table.find? r = some record' →
      record'.payload = .dict d' → d' = d := by
    intro record' d' found' payload'
    obtain rfl := Option.some.inj (found.symm.trans found')
    rw [payload] at payload'
    exact (Payload.dict.inj payload').symm
  unfold dictAppend
  apply ends_context_bind
  apply ends_reserveDict_bind sound
  · exact fun _ => Or.inl (.refl _)
  · intro record' d' e err found' payload' _ starves
    rw [same found' payload'] at starves
    exact Or.inr ⟨e, Or.inr starves, puts_of_store found'⟩
  intro record' d' e v₁ found' payload' paired grows hv₁
  rw [same found' payload'] at paired grows
  obtain ⟨paired₁, capacity, room⟩ := paired.grow grows
  have widened : w.context.Puts r (.dict e) v₁.context := by
    rw [hv₁]
    exact puts_of_store found'
  have sound₁ : v₁.context.Sound := by
    rw [hv₁]
    exact (Move.store found' (show (Payload.dict e).Paired from paired₁)).sound sound
  have found₁ : v₁.context.table.find? r = some (record'.setPayload (.dict e)) := by
    rw [hv₁, Table.find?_modifyAt_self found']
  rw [← bind_pure (updateDict r _)]
  refine ends_intake_puts (q := .dict ⟨e.keys.push key, e.values.push v⟩) sound₁ found₁
    (onDict_eq_ok.mpr ⟨e, _, rfl, rfl, rfl⟩) (paired₁.push capacity room key v) ?_ ?_
  · exact fun _ => Or.inr ⟨e, Or.inl grows, widened⟩
  · intro v₂ put _
    exact ends_pure ⟨e, grows, widened.puts put⟩

theorem works_dictInsert (r : Ref) (key v : Slot) (w : Workspace) (sound : w.context.Sound) :
    (dictInsert r key v).Ends w fun a cx => Works (.dictInsert r key v) r w.context cx ∨
      ∃ d e err, a = .error err ∧ w.context.table.payload? r = some (.dict d) ∧
        d.Starves w.context.listLimit w.grants e err ∧ w.context.Puts r (.dict e) cx := by
  unfold dictInsert
  apply ends_read_bind (fun _ _ => Or.inl (Or.inl (.refl _)))
  intro position h
  obtain ⟨d, hd, h⟩ := bind_eq_ok.mp h
  obtain ⟨_, fits, h⟩ := bind_eq_ok.mp h
  obtain ⟨record, found, payload⟩ := dict_eq_ok hd
  have before : w.context.table.payload? r = some (.dict d) := by
    rw [Table.payload?_of_find? found, payload]
  cases position with
  | some i =>
    apply (ends_dictReplace_puts sound found payload).mono
    intro a cx puts
    apply Or.inl
    cases a with
    | ok => exact Or.inr ⟨_, _, before, .replace fits h, puts⟩
    | error => exact puts.imp_right fun put => ⟨_, _, before, .replace fits h, put⟩
  | none =>
    refine (ends_dictAppend_appends sound found payload).map _ ?_ ?_
    · rintro err cx (inherits | ⟨e, grows | starves, put⟩)
      · exact Or.inl (Or.inl inherits)
      · exact Or.inl (Or.inr ⟨_, _, before, .widen grows, put⟩)
      · exact Or.inr ⟨d, e, err, rfl, before, starves, put⟩
    · rintro _ cx ⟨e, grows, put⟩
      exact Or.inl (Or.inr ⟨_, _, before, .append fits h grows, put⟩)

theorem descended_dictInsert (r : Ref) (key v : Slot) (w : Workspace) (sound : w.context.Sound) :
    (Act.change (.dictInsert r key v)).Ends w
      (Update.Descended (.dictInsert r key v) w.context w.grants) := by
  refine (works_dictInsert r key v w sound).map _ ?_ ?_
  · rintro err cx (works | ⟨d, e, err', failed, before, starves, put⟩)
    · exact works.descended fun _ => rfl
    · cases failed
      exact put.descended (fun _ => rfl) (.starved rfl rfl before starves rfl)
  · rintro doomed cx (works | ⟨_, _, _, failed, _⟩)
    · exact works.descended fun _ => rfl
    · cases failed

theorem ends_exchangePayload_of_payload? {β : Type} {p : Payload} {g : Payload → Act β}
    {R : Except Error β → Context → Prop} (sound : w.context.Sound) (paired : p.Paired)
    (failed : ∀ e, w.context.table.payload? r = none → R (.error e) w.context)
    (stored : ∀ old (v : Workspace), w.context.table.payload? r = some old → old.Paired →
      (∀ x, v.context.table.payload? x = if x = r then some p else w.context.table.payload? x) →
      v.context.Sound → (g old).Ends v R) :
    (exchangePayload r p >>= g).Ends w R := by
  apply ends_updatePayload_bind
  · intro e none
    apply failed e
    cases found : w.context.table.find? r with
    | none => rw [Table.payload?, found]; rfl
    | some record => exact absurd rfl (none record _ p found)
  · intro record old q v found passed hv
    cases passed
    apply stored record.payload v (Table.payload?_of_find? found)
    · exact sound.paired (Table.payload?_of_find? found)
    · rw [hv]
      exact Table.payload?_setPayload found p
    · rw [hv]
      exact (Move.store found paired).sound sound

theorem descended_setPayload (r : Ref) (contents : Literal) (w : Workspace)
    (sound : w.context.Sound) : (Act.change (.setPayload r contents)).Ends w
      (Update.Descended (.setPayload r contents) w.context w.grants) := by
  have plain : contents.payload.isContainer = false := by cases contents <;> rfl
  refine Ends.map (P := Either
    (fun _ cx => Update.Descended (.setPayload r contents) w.context w.grants
      (.ok { answer := .done }) cx)
    fun cx => ∀ e, Update.Descended (.setPayload r contents) w.context w.grants (.error e) cx) ?_ _
    (fun e _ h => h e) fun _ _ h => h
  apply ends_exchangePayload_of_payload? sound (Payload.paired_of_plain plain)
  · exact fun _ _ e => (Inherits.refl _).descended fun _ => rfl
  · intro old v _ _ after _
    apply ends_pure
    intro x p found
    rw [after] at found
    by_cases e : x = r
    · rw [if_pos e] at found
      cases found
      exact .overwritten rfl plain
    · rw [if_neg e] at found
      exact .moved rfl found

theorem descended_staticFrom (r : Ref) (w : Workspace) (sound : w.context.Sound) :
    (Act.change (.staticFrom r)).Ends w (Update.Descended (.staticFrom r) w.context w.grants) := by
  refine Ends.map (P := Either
    (fun s cx => Update.Descended (.staticFrom r) w.context w.grants (.ok { answer := .ref s }) cx)
    fun cx => ∀ e, Update.Descended (.staticFrom r) w.context w.grants (.error e) cx) ?_ _
    (fun e _ h => h e) fun _ _ h => h
  apply ends_exchangePayload_of_payload? sound Payload.paired_empty
  · exact fun _ _ e => (Inherits.refl _).descended fun _ => rfl
  intro old v before paired after sound₁
  -- the record that has been emptied, and all others
  have rest : ∀ {a : Except Error Effect} {x : Ref} {p : Payload},
      Update.source (.staticFrom r) a x = some x → v.context.table.payload? x = some p →
      Update.Descends (.staticFrom r) w.context w.grants a x p := by
    intro a x p source found
    rw [after] at found
    by_cases e : x = r
    · rw [if_pos e] at found
      cases found
      exact .overwritten rfl rfl
    · rw [if_neg e] at found
      exact .moved source found
  apply (ends_allocateStatic_adds paired v sound₁).mono
  intro a cx h
  cases a with
  | error e =>
    rw [show cx = v.context from h]
    exact fun e x p found => rest rfl found
  | ok s =>
    intro x p found
    have added := h.2 x p found
    by_cases e : x = s
    · rw [if_pos e] at added
      rw [added, e]
      exact .moved (if_pos rfl) before
    · rw [if_neg e] at added
      exact rest (if_neg fun h => e (Option.some.inj h).symm) added

theorem descended_swapPayloads (a b : Ref) (w : Workspace) (sound : w.context.Sound) :
    (Act.change (.swapPayloads a b)).Ends w
      (Update.Descended (.swapPayloads a b) w.context w.grants) := by
  refine Ends.map (P := Either
    (fun _ cx => Update.Descended (.swapPayloads a b) w.context w.grants
      (.ok { answer := .done }) cx)
    fun cx => ∀ e, Update.Descended (.swapPayloads a b) w.context w.grants (.error e) cx) ?_ _
    (fun e _ h => h e) fun _ _ h => h
  apply ends_exchangePayload_of_payload? sound Payload.paired_empty
  · exact fun _ _ e => (Inherits.refl _).descended fun _ => rfl
  intro fromB v₁ beforeB pairedB after₁ sound₁
  apply ends_exchangePayload_of_payload? sound₁ pairedB
  · intro _ _ e x p found
    rw [after₁] at found
    by_cases e : x = b
    · rw [if_pos e] at found
      cases found
      exact .overwritten rfl rfl
    · rw [if_neg e] at found
      exact .moved rfl found
  intro fromA v₂ beforeA pairedA after₂ sound₂
  apply ends_exchangePayload_of_payload? sound₂ pairedA
  · -- the record has been there all the time
    intro _ gone
    rw [after₂, after₁, if_pos rfl] at gone
    split at gone
    · cases gone
    · cases gone
  intro _ v₃ _ _ after₃ _
  apply ends_pure
  intro x p found
  rw [after₃] at found
  by_cases hb : x = b
  · rw [if_pos hb] at found
    cases found
    rw [after₁] at beforeA
    by_cases hab : a = b
    · rw [if_pos hab] at beforeA
      cases beforeA
      exact .overwritten rfl rfl
    · rw [if_neg hab] at beforeA
      exact .moved (if_pos hb) beforeA
  · rw [if_neg hb, after₂] at found
    by_cases ha : x = a
    · rw [if_pos ha] at found
      cases found
      exact .moved ((if_neg hb).trans (if_pos ha)) beforeB
    · rw [if_neg ha, after₁, if_neg hb] at found
      exact .moved ((if_neg hb).trans (if_neg ha)) found

section

variable {c : Change}

theorem Ends.descended_of_works {x : Act α} {f : α → Effect}
    (h : x.Ends w fun _ cx => Works c r w.context cx)
    (stays : ∀ a y, c.source (.ok (f a)) y = some y) :
    (x >>= fun a => pure (f a)).Ends w (c.Descended w.context w.grants) :=
  h.map f (fun _ _ works => works.descended fun _ => rfl) fun a _ works =>
    works.descended (stays a)

theorem Ends.descended_of_inherits {x : Act α} {f : α → Effect}
    (h : x.Ends w fun _ cx => w.context.Inherits cx)
    (stays : ∀ a y, c.source (.ok (f a)) y = some y) :
    (x >>= fun a => pure (f a)).Ends w (c.Descended w.context w.grants) :=
  h.map f (fun _ _ h => h.descended fun _ => rfl) fun a _ h => h.descended (stays a)

theorem Ends.descended_of_adds {P : Payload → Prop} {x : Act Ref}
    (h : x.Ends w (Either (w.context.Adds P) w.context.Inherits))
    (makes : ∀ p, P p → c.Makes w.context.listLimit p)
    (born : ∀ r y, c.source (.ok { answer := .ref r }) y =
      if some r = some y then none else some y) :
    (x >>= fun r => pure { answer := .ref r }).Ends w (c.Descended w.context w.grants) :=
  h.map _ (fun _ _ h => Inherits.descended h fun _ => rfl) fun r _ h =>
    (Adds.mono h makes).descended (born r)

theorem ends_allocContainer_makes {p : Payload} (slots : List Slot) (sound : w.context.Sound)
    (paired : p.Paired) (makes : c.Makes w.context.listLimit p) : (allocContainer p slots).Ends w
      (Either (w.context.Adds (c.Makes w.context.listLimit)) w.context.Inherits) := by
  apply (ends_allocContainer_adds slots paired w sound).mono
  intro a cx h
  cases a with
  | error e => exact h
  | ok r =>
    refine Adds.mono h ?_
    rintro _ rfl
    exact makes

end

/-- After a change every payload has come from somewhere. -/
theorem ends_descends (c : Change) (w : Workspace) (sound : w.context.Sound) :
    (Act.change c).Ends w (c.Descended w.context w.grants) := by
  cases c with
  | allocate size zeroed =>
    exact (ends_allocate_adds size zeroed w sound).descended_of_adds (fun _ => .plain)
      fun _ _ => rfl
  | allocateStatic contents =>
    have plain : contents.payload.isContainer = false := by cases contents <;> rfl
    refine Ends.descended_of_adds (P := (· = contents.payload)) ?_ ?_ fun _ _ => rfl
    · apply (ends_allocateStatic_adds (Payload.paired_of_plain plain) w sound).mono
      intro a cx h
      cases a with
      | ok r => exact h
      | error e =>
        rw [show cx = w.context from h]
        exact Inherits.refl _
    · rintro _ rfl
      exact .plain plain
  | staticFrom r => exact descended_staticFrom r w sound
  | setPayload r contents => exact descended_setPayload r contents w sound
  | swapPayloads a b => exact descended_swapPayloads a b w sound
  | writeRaw r offset bytes =>
    exact (works_writeRaw r offset bytes w).descended_of_works fun _ _ => rfl
  | pushScope =>
    exact (ends_pushScope (Inherits.refl w.context)).descended_of_inherits fun _ _ => rfl
  | increment family target =>
    cases target with
    | none => exact ends_pure ((Inherits.refl _).descended fun _ => rfl)
    | some r =>
      exact (ends_increment_inherits family r w sound).descended_of_inherits fun _ _ => rfl
  | decrement family keep target =>
    cases target with
    | none => exact ends_pure ((Inherits.refl _).descended fun _ => rfl)
    | some r =>
      exact (ends_decrement_inherits family keep r w sound).descended_of_inherits fun _ _ => rfl
  | newStr bytes =>
    exact (ends_allocBuffered_adds _ rfl w sound).descended_of_adds (fun _ => .plain) fun _ _ => rfl
  | newText content =>
    exact (ends_allocBuffered_adds _ rfl w sound).descended_of_adds (fun _ => .plain) fun _ _ => rfl
  | newList kind slots =>
    refine Ends.descended_of_adds (P := Update.Makes w.context.listLimit (.newList kind slots)) ?_
      (fun _ h => h) fun _ _ => rfl
    unfold newList
    apply ends_nextGrant_bind
    apply ends_read_bind (fun _ _ => Inherits.refl _)
    exact fun l laid => ends_allocContainer_makes slots sound trivial (.list laid)
  | listPush r v => exact (works_listPush r v w sound).descended_of_works fun _ _ => rfl
  | listPop r => exact (works_listPop r w sound).descended_of_works fun _ _ => rfl
  | listSet r index v => exact (works_listSet r index v w sound).descended_of_works fun _ _ => rfl
  | newDict keyKind valueKind keys values =>
    refine Ends.descended_of_adds
      (P := Update.Makes w.context.listLimit (.newDict keyKind valueKind keys values)) ?_
      (fun _ h => h) fun _ _ => rfl
    unfold newDict
    apply ends_nextGrant_bind
    apply ends_nextGrant_bind
    apply ends_read_bind (fun _ _ => Inherits.refl _)
    exact fun d laid => ends_allocContainer_makes _ sound (SlotDict.items_ofSlots laid).2.2
      (.dict laid)
  | dictInsert r key v => exact descended_dictInsert r key v w sound
  | newSet kind slots =>
    refine Ends.descended_of_adds (P := Update.Makes w.context.listLimit (.newSet kind slots)) ?_
      (fun _ h => h) fun _ _ => rfl
    unfold newSet
    apply ends_nextGrant_bind
    apply ends_read_bind (fun _ _ => Inherits.refl _)
    exact fun l laid => ends_allocContainer_makes slots sound trivial (.set laid)

end Act

def Update.outcome (c : Change) (w : Workspace) : Except Error Effect :=
  match Act.change c w with
  | .ok effect _ => .ok effect
  | .error e _ => .error e

section Turning

variable {cx cx' : Context} {grants : Grants} {b : Bindings} {t : Task} {ds : List Deed}
  {new : List Task} {fault : Option Fault} {c : Change}

theorem Turn.after_change {P : Except Error Effect → Context → Prop}
    (turn : Turn cx grants b t ds cx' new fault) (change : t.change? b = some c)
    (ends : (Act.change c).Ends ⟨cx, [], grants⟩ P) : P (c.outcome ⟨cx, [], grants⟩) cx' := by
  unfold Act.Ends at ends
  rw [Update.outcome]
  cases turn with
  | changed read ran | refused read ran =>
    rw [Task.change?_of_read read] at change
    cases change
    rw [ran] at ends ⊢
    exact ends
  | unbound read =>
    rw [Task.change?, read] at change
    cases change
  | asked | outermost | popping | unhooked | hooked | opened | scripted | released | releasing
  | stuck | buried | finished | exiting | left | bottom | closing | mismatched | unwound
  | unwinding | draining | drained | swept => cases change

theorem Turn.inherits (turn : Turn cx grants b t ds cx' new fault) (sound : cx.Sound)
    (idle : t.change? b = none) : cx.Inherits cx' := by
  refine turn.path.inherits sound ?_
  cases turn with
  | changed read | refused read =>
    rw [Task.change?_of_read read] at idle
    cases idle
  | asked | unbound | outermost | popping | unhooked | scripted | released | stuck | finished
  | bottom | closing | mismatched | unwound | unwinding | drained => simp
  | hooked | opened | buried | exiting | left | draining => simp [Deed.Barren]
  | @releasing r rest doomed w d ran move lowers =>
    intro e he
    rw [List.mem_singleton.mp he]
    cases d with
    | lower | defer | destroy => trivial
    | raise | keep | drain | allocate | allocateStatic | hook | store | enter | leave | bury
    | sweep => cases lowers
  | swept path sweeps =>
    intro d hd
    obtain ⟨x, rfl⟩ := sweeps d hd
    trivial

end Turning

namespace Machine

variable {m : Machine} {c : Change}

theorem exists_task_of_change? (change : m.change? = some c) :
    m.fault = none ∧ ∃ t rest, m.agenda = t :: rest ∧ t.change? m.bindings = some c := by
  unfold change? at change
  split at change
  · rename_i t rest running next
    exact ⟨running, t, rest, next, change⟩
  · cases change

theorem inherits_step (sound : m.context.Sound) (idle : m.change? = none) :
    m.context.Inherits m.step.context := by
  rcases m.step_cases with same | ⟨running, t, rest, next⟩
  · rw [same]
    exact .refl _
  · obtain ⟨ds, new, turn, _⟩ := turn_step sound running next
    rw [change?_eq running next] at idle
    exact turn.inherits sound idle

theorem after_change {P : Except Error Effect → Context → Prop} (sound : m.context.Sound)
    (change : m.change? = some c) (ends : (Act.change c).Ends m.workspace P) :
    P (c.outcome m.workspace) m.step.context := by
  obtain ⟨running, t, rest, next, change⟩ := exists_task_of_change? change
  obtain ⟨ds, new, turn, _⟩ := turn_step sound running next
  exact turn.after_change change ends

end Machine

namespace History

variable (h : History) {n : Nat}

def change? (n : Nat) : Option Change := if h.closing = some n then none else (h.state n).change?

theorem inherits (idle : h.change? n = none) :
    (h.state n).context.Inherits (h.state (n + 1)).context := by
  by_cases close : h.closing = some n
  · rw [show h.state (n + 1) = (h.state n).closing from if_pos close]
    exact .refl _
  · rw [show h.state (n + 1) = (h.state n).step from if_neg close]
    rw [change?, if_neg close] at idle
    exact Machine.inherits_step (h.sound n) idle

theorem after_change {c : Change} {P : Except Error Effect → Context → Prop}
    (change : h.change? n = some c) (ends : (Act.change c).Ends (h.state n).workspace P) :
    P (c.outcome (h.state n).workspace) (h.state (n + 1)).context := by
  rw [change?] at change
  by_cases close : h.closing = some n
  · rw [if_pos close] at change
    cases change
  · rw [if_neg close] at change
    rw [show h.state (n + 1) = (h.state n).step from if_neg close]
    exact Machine.after_change (h.sound n) change ends

theorem descended {c : Change} (change : h.change? n = some c) :
    c.Descended (h.state n).context ((h.state n).memory 0) (c.outcome (h.state n).workspace)
      (h.state (n + 1)).context :=
  h.after_change change (Act.ends_descends c _ (h.sound n))

end History

end ScopedHeap
