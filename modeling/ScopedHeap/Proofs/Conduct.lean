import ScopedHeap.Proofs.Balance
import ScopedHeap.Proofs.Retain

/-!
# The conduct of operations

`Act.Settles` says of an operation that it goes along a path of ordinary deeds and what the deeds
come to: which record they doom, and which references they gain beyond those they lose. For an
operation on a container that is nothing but the references of the record it dooms: what the
container takes in has been counted, and what it gives away has been given up.

An operation that fails has gained and lost the same, with one exception. If a container gives away
a reference to a record that has no count left, the reference has left its slot and is not given up.
-/
namespace ScopedHeap

def Doomed.refs (d : Doomed) : List Ref := d.record.payload.refs

theorem bind_eq_error {ε α β : Type} {x : Except ε α} {f : α → Except ε β} {e : ε} :
    x >>= f = .error e ↔ x = .error e ∨ ∃ a, x = .ok a ∧ f a = .error e := by
  cases x with
  | error e => simp [Bind.bind, Except.bind]
  | ok a => simp [Bind.bind, Except.bind]

theorem bind_eq_ok {ε α β : Type} {x : Except ε α} {f : α → Except ε β} {b : β} :
    x >>= f = .ok b ↔ ∃ a, x = .ok a ∧ f a = .ok b := by
  cases x with
  | error e => simp [Bind.bind, Except.bind]
  | ok a => simp [Bind.bind, Except.bind]

namespace SlotList

variable {l k : SlotList} {limit i : Nat} {grant : Grant} {v old : Slot}

theorem capacity_ofSlots {kind : SlotKind} {slots : List Slot}
    (h : ofSlots limit grant kind slots = .ok l) : l.capacity = max slots.length 1 := by
  rw [ofSlots_eq_ok h]

theorem items_pop (h : l.pop = .ok (v, k)) : l.items = k.items ++ [v] := by
  unfold pop at h
  split at h
  · rename_i last hlast
    cases h
    exact (List.dropLast_append_getLast? v hlast).symm
  · cases h

def doubled (l : SlotList) : SlotList := { l with capacity := l.capacity * 2 }

/-- There is room for one more slot: there was already, or the list was full and has doubled. -/
def Grows (limit : Nat) (l k : SlotList) : Prop :=
  l.length < l.capacity ∧ k = l ∨
    l.capacity ≤ l.length ∧ l.capacity < limit / 2 ∧ l.doubled.size ≤ maxOffset ∧ k = l.doubled

theorem grows_of_reserve (h : l.reserve limit grant = .ok k) : l.Grows limit k := by
  rcases reserve_eq_ok h with ⟨same, room⟩ | ⟨grown, full, small⟩
  · exact Or.inl ⟨room, same⟩
  · exact Or.inr ⟨full, small.1, small.2, grown⟩

theorem reserve_eq_error {e : Error} (h : l.reserve limit grant = .error e)
    (small : l.capacity < limit / 2) :
    e = .outOfMemory l.doubled.size ∧ grant.covers l.doubled.size = false := by
  unfold reserve at h
  split at h
  · cases h
  · rw [if_neg (by omega)] at h
    dsimp only at h
    split at h
    · cases h
    · rename_i refused
      cases h
      exact ⟨rfl, Bool.eq_false_iff.mpr refused⟩

theorem Grows.eq_or_doubled (h : l.Grows limit k) : k = l ∨ k = l.doubled :=
  h.imp And.right fun h => h.2.2.2

theorem Grows.items (h : l.Grows limit k) : k.items = l.items := by
  rcases h.eq_or_doubled with rfl | rfl <;> rfl

theorem Grows.kind (h : l.Grows limit k) : k.kind = l.kind := by
  rcases h.eq_or_doubled with rfl | rfl <;> rfl

theorem Grows.length (h : l.Grows limit k) : k.length = l.length := congrArg List.length h.items

theorem exists_item_of_position {index : Int} (h : l.position index = .ok i) :
    ∃ old, l.items[i]? = some old := by
  have lt : i < l.items.length := by
    unfold position at h
    dsimp only at h
    generalize (if index < 0 then index + (l.length : Int) else index) = resolved at h
    split at h
    · rename_i bounds
      cases h
      unfold length at bounds
      omega
    · cases h
  exact ⟨_, List.getElem?_eq_getElem lt⟩

theorem count_replace (hold : l.items[i]? = some old) (x : Ref) :
    (l.items.filterMap Slot.ref?).count x + ([v].filterMap Slot.ref?).count x =
      ((l.replace i v).items.filterMap Slot.ref?).count x +
        ([old].filterMap Slot.ref?).count x := by
  obtain ⟨lt, rfl⟩ := List.getElem?_eq_some_iff.mp hold
  have before := ((List.getElem_cons_eraseIdx_perm lt).filterMap Slot.ref?).count_eq x
  have after := ((List.set_perm_cons_eraseIdx lt v).filterMap Slot.ref?).count_eq x
  rw [← List.singleton_append, List.filterMap_append, List.count_append] at before after
  rw [replace, after, ← before]
  omega

end SlotList

namespace SlotDict

variable {d e : SlotDict} {limit : Nat} {grants : Grants}

theorem ofSlots_eq_ok {keyGrant valueGrant : Grant} {keyKind valueKind : SlotKind}
    {ks vs : List Slot} (h : ofSlots limit keyGrant valueGrant keyKind valueKind ks vs = .ok d) :
    ks.length = vs.length ∧ SlotList.ofSlots limit keyGrant keyKind ks = .ok d.keys ∧
      SlotList.ofSlots limit valueGrant valueKind vs = .ok d.values := by
  unfold ofSlots at h
  split at h
  · cases h
  · rename_i same
    obtain ⟨keyList, hkeys, h⟩ := bind_eq_ok.mp h
    obtain ⟨valueList, hvalues, h⟩ := bind_eq_ok.mp h
    cases h
    exact ⟨not_not.mp same, hkeys, hvalues⟩

theorem capacity_ofSlots {keyGrant valueGrant : Grant} {keyKind valueKind : SlotKind}
    {ks vs : List Slot} (h : ofSlots limit keyGrant valueGrant keyKind valueKind ks vs = .ok d) :
    d.keys.capacity = d.values.capacity := by
  obtain ⟨same, keys, values⟩ := ofSlots_eq_ok h
  rw [SlotList.capacity_ofSlots keys, SlotList.capacity_ofSlots values, same]

theorem items_ofSlots {keyGrant valueGrant : Grant} {keyKind valueKind : SlotKind}
    {ks vs : List Slot} (h : ofSlots limit keyGrant valueGrant keyKind valueKind ks vs = .ok d) :
    d.keys.items = ks ∧ d.values.items = vs ∧ d.Paired := by
  obtain ⟨same, keys, values⟩ := ofSlots_eq_ok h
  have room := SlotList.capacity_ofSlots values
  have items := SlotList.items_ofSlots values
  refine ⟨SlotList.items_ofSlots keys, items, ?_, ?_, ?_, Or.inl (capacity_ofSlots h)⟩
  · rw [SlotList.length, SlotList.length, SlotList.items_ofSlots keys, items, same]
  · rw [room, SlotList.length, items]
    exact Nat.le_max_left _ _
  · rw [room]
    exact Nat.le_max_right _ _

def doubled (d : SlotDict) : SlotDict := ⟨d.keys.doubled, d.values.doubled⟩

/-- Both lists have room for one more slot. -/
def Grows (limit : Nat) (d e : SlotDict) : Prop :=
  d.keys.Grows limit e.keys ∧ d.values.Grows limit e.values

theorem Grows.slots (h : d.Grows limit e) : (Payload.dict e).slots = (Payload.dict d).slots := by
  rw [Payload.slots, Payload.slots, h.1.items, h.2.items]

/-- The keys have doubled their room and the values were refused the same. -/
structure Starves (limit : Nat) (grants : Grants) (d e : SlotDict) (err : Error) : Prop where
  capacity : d.keys.capacity = d.values.capacity
  keys : d.keys.Grows limit d.keys.doubled
  result : e = { d with keys := d.keys.doubled }
  refused : ∃ bytes, grants.Refuses bytes ∧ err = .outOfMemory bytes

theorem Starves.slots {err : Error} (h : d.Starves limit grants e err) :
    (Payload.dict e).slots = (Payload.dict d).slots := by
  rw [h.result]
  rfl

namespace Paired

theorem of_full (h : d.Paired) (full : d.keys.capacity ≤ d.keys.length) :
    d.keys.capacity = d.values.capacity ∧ d.values.length = d.values.capacity := by
  obtain ⟨length, inside, pos, equal | ⟨twice, _⟩⟩ := h
  · omega
  · omega

/-- Once both lists have room, they have the same. -/
theorem grow (h : d.Paired) (grows : d.Grows limit e) :
    e.Paired ∧ e.keys.capacity = e.values.capacity ∧ e.values.length < e.values.capacity := by
  have inside := h.inside
  have pos := h.pos
  have length : e.keys.length = e.values.length := by
    rw [grows.1.length, grows.2.length, h.length]
  have room : e.keys.capacity = e.values.capacity ∧ e.values.length < e.values.capacity := by
    rw [grows.2.length]
    rcases grows with ⟨⟨room, keys⟩ | ⟨full, _, _, keys⟩, ⟨room', values⟩ | ⟨full', _, _, values⟩⟩
    · rw [keys, values]
      rcases h.capacity with equal | ⟨_, full⟩
      · exact ⟨equal, room'⟩
      · omega
    · rw [keys, values, SlotList.doubled]
      dsimp only
      have := h.length
      rcases h.capacity with equal | ⟨twice, _⟩
      · omega
      · omega
    · have := h.of_full full
      omega
    · have := h.of_full full
      rw [keys, values, SlotList.doubled, SlotList.doubled]
      dsimp only
      omega
  exact ⟨⟨length, by omega, by omega, Or.inl room.1⟩, room⟩

/-- The two lists grow together, unless the keys have grown before. -/
theorem eq_of_grows (h : d.Paired) (grows : d.Grows limit e) :
    e = d ∨ e = d.doubled ∨ d.Lopsided ∧ e = { d with values := d.values.doubled } := by
  obtain ⟨keys, values⟩ := e
  obtain ⟨keyGrows, valueGrows⟩ := grows
  dsimp only at keyGrows valueGrows
  rcases keyGrows with ⟨room, rfl⟩ | ⟨full, _, _, rfl⟩
  · rcases valueGrows with ⟨_, rfl⟩ | ⟨full, _, _, rfl⟩
    · exact Or.inl rfl
    · refine Or.inr (Or.inr ⟨h.capacity.resolve_left ?_, rfl⟩)
      have := h.length
      omega
  · have even := h.of_full full
    rcases valueGrows with ⟨room, rfl⟩ | ⟨_, _, _, rfl⟩
    · omega
    · exact Or.inr (Or.inl rfl)

theorem push (h : d.Paired) (capacity : d.keys.capacity = d.values.capacity)
    (room : d.values.length < d.values.capacity) (key v : Slot) :
    SlotDict.Paired ⟨d.keys.push key, d.values.push v⟩ := by
  have length := h.length
  refine ⟨?_, ?_, h.pos, Or.inl capacity⟩
  · simpa [SlotList.length, SlotList.push] using length
  · simpa [SlotList.length, SlotList.push] using room

theorem replace (h : d.Paired) (i : Nat) (v : Slot) :
    SlotDict.Paired { d with values := d.values.replace i v } := by
  obtain ⟨length, inside, pos, capacity⟩ := h
  constructor <;> simpa [SlotList.length, SlotList.replace, Lopsided] using ‹_›

/-- If the values cannot have their room, the keys had theirs before or the memory has run out. -/
theorem starve (h : d.Paired) {keys : SlotList} {k : Nat} {err : Error}
    (grows : d.keys.Grows limit keys) (failed : d.values.reserve limit (grants k) = .error err) :
    keys = d.keys ∨ d.Starves limit grants { d with keys } err := by
  rcases grows with ⟨_, same⟩ | ⟨full, small, within, rfl⟩
  · exact Or.inl same
  · obtain ⟨capacity, _⟩ := h.of_full full
    obtain ⟨answer, refused⟩ := SlotList.reserve_eq_error failed (capacity ▸ small)
    have size : d.values.doubled.size = d.keys.doubled.size := by
      rw [SlotList.size, SlotList.size, SlotList.doubled, SlotList.doubled, capacity]
    rw [← size] at within
    exact Or.inr ⟨capacity, Or.inr ⟨full, small, size ▸ within, rfl⟩, rfl, _,
      ⟨within, k, Grant.eq_false_of_covers refused within⟩, answer⟩

theorem of_starves (h : d.Paired) {err : Error} (starves : d.Starves limit grants e err) :
    e.Paired := by
  obtain ⟨capacity, keys, rfl, _⟩ := starves
  refine ⟨h.length, h.inside, h.pos, Or.inr ⟨congrArg (· * 2) capacity, ?_⟩⟩
  rcases keys with ⟨_, same⟩ | ⟨full, _⟩
  · have twice : d.keys.capacity * 2 = d.keys.capacity := congrArg SlotList.capacity same
    have := h.pos
    omega
  · exact (h.of_full full).2

end Paired

end SlotDict

theorem Table.lt_length_of_search {t : Table} {l : SlotList} {v : Slot} {i : Nat}
    (h : t.search l v = .ok (some i)) : i < l.length := by
  have scanned : ∀ (items : List Slot) (i : Nat), t.scan v items = .ok (some i) →
      i < items.length := by
    intro items
    induction items with
    | nil =>
      intro i h
      cases h
    | cons item items ih =>
      intro i h
      obtain ⟨same, _, h⟩ := bind_eq_ok.mp h
      cases same with
      | true =>
        cases h
        exact Nat.zero_lt_succ _
      | false =>
        obtain ⟨rest, hrest, h⟩ := bind_eq_ok.mp h
        cases rest with
        | none => cases h
        | some j =>
          cases h
          exact Nat.succ_lt_succ (ih j hrest)
  obtain ⟨_, _, h⟩ := bind_eq_ok.mp h
  exact scanned l.items i h

namespace Context

variable {cx : Context} {r : Ref}

theorem find_eq_ok {record : Record} (h : cx.find r = .ok record) :
    cx.table.find? r = some record := Table.find_eq_ok_iff.mp h

theorem list_eq_ok {l : SlotList} (h : cx.list r = .ok l) :
    ∃ record, cx.table.find? r = some record ∧ record.payload = .list l := by
  obtain ⟨payload, hp, h⟩ := bind_eq_ok.mp h
  obtain ⟨record, found, hp⟩ := bind_eq_ok.mp hp
  cases hp
  refine ⟨record, find_eq_ok found, ?_⟩
  cases hr : record.payload with
  | list k =>
    rw [hr] at h
    cases h
    rfl
  | raw | str | text | dict | set =>
    rw [hr] at h
    cases h

theorem dict_eq_ok {d : SlotDict} (h : cx.dict r = .ok d) :
    ∃ record, cx.table.find? r = some record ∧ record.payload = .dict d := by
  obtain ⟨payload, hp, h⟩ := bind_eq_ok.mp h
  obtain ⟨record, found, hp⟩ := bind_eq_ok.mp hp
  cases hp
  refine ⟨record, find_eq_ok found, ?_⟩
  cases hr : record.payload with
  | dict k =>
    rw [hr] at h
    cases h
    rfl
  | raw | str | text | list | set =>
    rw [hr] at h
    cases h

theorem Sound.paired_dict {record : Record} {d : SlotDict} (sound : cx.Sound)
    (found : cx.table.find? r = some record) (payload : record.payload = .dict d) : d.Paired := by
  have paired : record.payload.Paired := (sound.proper r _ (Table.bare_of_find? found)).paired
  rwa [payload] at paired

end Context

namespace Deed

/-- The deeds of which changes to a context consist, as long as payloads are not exchanged by hand
and no decrement keeps its record. -/
def Ordinary : Deed → Prop
  | raise _ | lower _ | defer _ | destroy _ | allocate _ _ => True
  | allocateStatic _ payload => payload.isContainer = false
  | store _ old new => new.kind = old.kind
  | keep _ | drain _ | hook _ _ | enter | leave | bury | sweep _ => False

def Lowers : Deed → Prop
  | lower _ | defer _ | destroy _ => True
  | _ => False

end Deed

/-- The deeds destroy the record `doomed` at last, and no other. -/
def Dooms (ds : List Deed) (doomed : Option Doomed) : Prop :=
  ∃ es, ds = es ++ doomed.toList.map .destroy ∧ ∀ d, .destroy d ∉ es

theorem dooms_none_iff {ds : List Deed} : Dooms ds none ↔ ∀ d, .destroy d ∉ ds := by
  simp [Dooms]

theorem Dooms.mem {ds : List Deed} {d : Doomed} (h : Dooms ds (some d)) : .destroy d ∈ ds := by
  obtain ⟨es, rfl, _⟩ := h
  simp

theorem dooms_destroy (d : Doomed) : Dooms [.destroy d] (some d) := ⟨[], rfl, by simp⟩

theorem Dooms.append {ds es : List Deed} {doomed : Option Doomed} (h : Dooms ds none)
    (k : Dooms es doomed) : Dooms (ds ++ es) doomed := by
  obtain ⟨fs, rfl, hfs⟩ := k
  refine ⟨ds ++ fs, (List.append_assoc _ _ _).symm, ?_⟩
  intro d hd
  rcases List.mem_append.mp hd with hd | hd
  · exact dooms_none_iff.mp h d hd
  · exact hfs d hd

/-- The deeds doom one record at most. The references they gain are those they lose, those of the
doomed record and those of `plus`, if what they lose includes `minus`. -/
structure Conduct (ds : List Deed) (doomed : Option Doomed) (minus plus : List Ref) : Prop where
  ordinary : ∀ d ∈ ds, d.Ordinary
  dooms : Dooms ds doomed
  balance : ∀ x, (ds.flatMap Deed.gains).count x + minus.count x =
    (ds.flatMap Deed.losses).count x + (doomed.elim [] Doomed.refs).count x + plus.count x

namespace Conduct

variable {ds es : List Deed} {doomed : Option Doomed} {minus plus more less : List Ref}

theorem nil : Conduct [] none [] [] := ⟨by simp, dooms_none_iff.mpr (by simp), fun _ => rfl⟩

theorem append (h : Conduct ds none minus plus) (k : Conduct es doomed less more) :
    Conduct (ds ++ es) doomed (minus ++ less) (plus ++ more) where
  ordinary := by
    intro d hd
    rcases List.mem_append.mp hd with hd | hd
    · exact h.ordinary d hd
    · exact k.ordinary d hd
  dooms := h.dooms.append k.dooms
  balance := by
    intro x
    have hx := h.balance x
    have kx := k.balance x
    simp only [List.flatMap_append, List.count_append, Option.elim_none, List.count_nil] at hx kx ⊢
    omega

theorem cancel (h : Conduct ds doomed minus plus)
    (same : ∀ x, minus.count x + more.count x = plus.count x + less.count x) :
    Conduct ds doomed less more where
  ordinary := h.ordinary
  dooms := h.dooms
  balance := by
    intro x
    have hx := h.balance x
    have sx := same x
    omega

theorem raises (refs : List Ref) : Conduct (refs.map .raise) none [] refs where
  ordinary := by
    intro d hd
    obtain ⟨r, _, rfl⟩ := List.mem_map.mp hd
    trivial
  dooms := dooms_none_iff.mpr (by simp)
  balance := by
    intro x
    have gains : (refs.map Deed.raise).flatMap Deed.gains = refs := by
      induction refs with
      | nil => rfl
      | cons r refs ih =>
        rw [List.map_cons, List.flatMap_cons, ih]
        rfl
    have losses : (refs.map Deed.raise).flatMap Deed.losses = [] := by
      rw [List.flatMap_eq_nil_iff]
      intro d hd
      obtain ⟨r, _, rfl⟩ := List.mem_map.mp hd
      rfl
    rw [gains, losses]
    simp

theorem store {r : Ref} {old new : Payload} (kind : new.kind = old.kind)
    (change : ∀ x, old.refs.count x + minus.count x = new.refs.count x + plus.count x) :
    Conduct [.store r old new] none minus plus where
  ordinary := by
    intro d hd
    rw [List.mem_singleton.mp hd]
    exact kind
  dooms := dooms_none_iff.mpr (by simp)
  balance := by
    intro x
    have hx := change x
    simp only [List.flatMap_singleton, Deed.gains, Deed.losses, Option.elim_none, List.count_nil]
    omega

theorem allocate (r : Ref) (payload : Payload) :
    Conduct [.allocate r payload] none payload.refs [r] where
  ordinary := by
    intro d hd
    rw [List.mem_singleton.mp hd]
    trivial
  dooms := dooms_none_iff.mpr (by simp)
  balance := by
    intro x
    simp only [List.flatMap_singleton, Deed.gains, Deed.losses, Option.elim_none, List.count_nil]
    omega

end Conduct

namespace Context

variable {cx : Context} {refs : List Ref}

/-- The record is not static, and if it is there at all nothing is counted. -/
def Unheld (cx : Context) (r : Ref) : Prop :=
  cx.table.isStatic r = false ∧ cx.table.count r = 0

/-- A new record with the payload has been stored under `r`. -/
def Stores (cx : Context) (payload : Payload) (r : Ref) (cx' : Context) : Prop :=
  ∃ grant table,
    cx.table.insert grant ⟨.fresh cx.current cx.scopes.activeHome, payload⟩ = .ok (r, table) ∧
    cx' = { cx with
      table := table.attach r.index
      counters := { cx.counters with allocated := cx.counters.allocated + 1 } }

theorem restore_eq (found : cx.table.find? r = some record) :
    { cx with table := cx.table.modifyAt r.index (Record.setPayload record.payload) } = cx := by
  have same : cx.table.modifyAt r.index (Record.setPayload record.payload) = cx.table := by
    apply Table.modifyAt_eq_self
    intro other hother
    rw [(Table.find?_eq_some.mp found).2] at hother
    rw [← Option.some.inj hother]
    rfl
  rw [same]

theorem path_raiseAll (can : ∀ r ∈ refs, cx.table.CanRaise r) :
    Path cx (refs.map .raise) { cx with table := cx.table.raiseAll refs } := by
  induction refs generalizing cx with
  | nil => exact .refl cx
  | cons r refs ih =>
    obtain ⟨record, found, free⟩ := can r List.mem_cons_self
    have first : Move cx (.raise r) { cx with table := cx.table.raise r } := by
      by_cases static : record.header.creationScope = staticScope
      · rw [Table.raise_of_static found static]
        exact .raiseStatic found static
      · rw [Table.raise_of_tracked found static]
        exact .raise found static (free.resolve_left static)
    have still : ∀ r' ∈ refs, (cx.table.raise r).CanRaise r' := by
      intro r' hr'
      obtain ⟨record', found', free'⟩ := can r' (List.mem_cons_of_mem _ hr')
      rw [Table.CanRaise, Table.find?_raise found]
      by_cases e : r' = r
      · rw [e, found] at found'
        obtain rfl := Option.some.inj found'
        exact ⟨_, if_pos e, by simpa using free⟩
      · exact ⟨record', (if_neg e).trans found', free'⟩
    exact .move first (ih still)

end Context

namespace Act

open Context

variable {α : Type} {w : Workspace} {r : Ref} {v : Slot}

/-- From a sound context the operation goes along a path; `p` holds of its outcome, of the deeds on
the path and of the context it ends in. -/
def Follows (x : Act α) (p : Except Error α → List Deed → Context → Prop) : Prop :=
  ∀ w : Workspace, w.context.Sound →
    x.Ends w fun a cx => ∃ ds, Path w.context ds cx ∧ p a ds cx

/-- An outcome comes with a record that is doomed and with new records; there is nothing else to
settle. -/
def Settled (doomed : α → Option Doomed) (fresh : α → List Ref) :
    Except Error α → List Deed → Context → Prop
  | .ok a, ds, _ => Conduct ds (doomed a) [] (fresh a) ∧ ∀ r ∈ fresh a, ∃ p, .allocate r p ∈ ds
  | .error _, ds, cx => ∃ lost, Conduct ds none [] lost ∧ ∀ r ∈ lost, cx.Unheld r

def Settles (x : Act α) (doomed : α → Option Doomed) (fresh : α → List Ref) : Prop :=
  x.Follows (Settled doomed fresh)

theorem settled_error {doomed : α → Option Doomed} {fresh : α → List Ref} {e : Error}
    {ds : List Deed} {cx : Context} (h : Conduct ds none [] []) :
    Settled doomed fresh (.error e) ds cx :=
  ⟨[], h, fun r hr => by cases hr⟩

theorem ends_decrement_heap (r : Ref) (w : Workspace) :
    (decrement .heap false r).Ends w (Either
      (fun doomed cx => ∃ d, Move w.context d cx ∧ d.Lowers ∧ Conduct [d] doomed [r] [])
      fun cx => cx = w.context ∧ w.context.Unheld r) := by
  apply (ends_decrement .heap false r w).mono
  intro a cx h
  cases h with
  | dangling absent =>
    exact ⟨rfl, by simp [Table.isStatic, absent], by simp [Table.count, absent]⟩
  | @underflow record found tracked zero =>
    refine ⟨rfl, (Table.isStatic_eq_false found).mpr (tracks_heap.mp tracked), ?_⟩
    rw [Table.count_of_find? found, zero]
  | @ignored record found untracked =>
    have static : record.header.creationScope = staticScope := by
      rwa [← Bool.not_eq_true, tracks_heap, not_not] at untracked
    exact ⟨.lower r, .lowerStatic found static, trivial, by simp [Deed.Ordinary],
      dooms_none_iff.mpr (by simp), by simp [Deed.gains, Deed.losses]⟩
  | @lowered record n found tracked count stays =>
    obtain ⟨n, rfl⟩ := Nat.exists_eq_succ_of_ne_zero (stays.resolve_left (by simp))
    exact ⟨.lower r, .lower found (tracks_heap.mp tracked) count, trivial, by
      simp [Deed.Ordinary], dooms_none_iff.mpr (by simp), by simp [Deed.gains, Deed.losses]⟩
  | @destroyed record gone table found tracked last _ inner removed =>
    refine ⟨.destroy ⟨r, gone⟩, .destroy found (tracks_heap.mp tracked) last inner removed, trivial,
      by simp [Deed.Ordinary], dooms_destroy _, ?_⟩
    intro x
    simp [Deed.gains, Deed.losses, Doomed.refs]
    omega
  | @deferred record found tracked last _ outer =>
    exact ⟨.defer r, .defer found (tracks_heap.mp tracked) last outer, trivial, by
      simp [Deed.Ordinary], dooms_none_iff.mpr (by simp), by simp [Deed.gains, Deed.losses]⟩

theorem ends_dropSlot (v : Slot) (w : Workspace) :
    (dropSlot v).Ends w (Either (fun doomed cx => ∃ ds, Path w.context ds cx ∧
        Conduct ds doomed ([v].filterMap Slot.ref?) [])
      fun cx => cx = w.context ∧ ∀ r ∈ [v].filterMap Slot.ref?, cx.Unheld r) := by
  unfold dropSlot
  cases hv : v.ref? with
  | none =>
    refine ends_pure ⟨[], .refl _, ?_⟩
    simpa [hv] using Conduct.nil
  | some r =>
    have refs : [v].filterMap Slot.ref? = [r] := by simp [hv]
    rw [refs]
    apply (ends_decrement_heap r w).mono
    intro a cx h
    cases a with
    | ok doomed =>
      obtain ⟨d, move, _, conduct⟩ := h
      exact ⟨[d], .single move, conduct⟩
    | error e =>
      obtain ⟨rfl, unheld⟩ := h
      refine ⟨rfl, ?_⟩
      intro r' hr'
      rw [List.mem_singleton.mp hr']
      exact unheld

theorem settles_allocRecord {payload : Payload} (plain : payload.isContainer = false) :
    (allocRecord payload).Settles (fun _ => none) (fun r => [r]) := by
  have refs : payload.refs = [] := by
    cases payload with
    | raw | str | text => rfl
    | list | dict | set => cases plain
  intro w sound
  apply ends_allocRecord
  · intro e
    exact ⟨[], .refl _, settled_error .nil⟩
  · intro _ r table inserted
    refine ⟨[.allocate r payload], .single (.allocate inserted plain), ?_⟩
    have conduct := Conduct.allocate r payload
    rw [refs] at conduct
    exact ⟨conduct, by simp⟩

theorem settles_allocate (size : Nat) (zeroed : Bool) :
    (allocate size zeroed).Settles (fun _ => none) (fun r => [r]) := by
  intro w sound
  apply ends_allocate
  · exact fun e => ⟨[], .refl _, settled_error .nil⟩
  · exact fun storage grants => settles_allocRecord rfl { w with grants } sound

theorem settles_allocBuffered {bytes : Nat} {payload : Payload}
    (plain : payload.isContainer = false) :
    (allocBuffered bytes payload).Settles (fun _ => none) (fun r => [r]) := by
  intro w sound
  apply ends_allocBuffered
  · exact fun e => ⟨[], .refl _, settled_error .nil⟩
  · exact fun grants => settles_allocRecord plain { w with grants } sound

theorem ends_retain_bind {β : Type} {slots : List Slot} {f : Unit → Act β}
    {R : Except Error β → Context → Prop} (failed : ∀ e, R (.error e) w.context)
    (held : ∀ v : Workspace, (∀ r ∈ slots.filterMap Slot.ref?, w.context.table.CanRaise r) →
      v.context = { w.context with
        table := w.context.table.raiseAll (slots.filterMap Slot.ref?) } → (f ()).Ends v R) :
    (retain slots >>= f).Ends w R := by
  refine Ends.bind (P := Either
    (fun _ cx => (∀ r ∈ slots.filterMap Slot.ref?, w.context.table.CanRaise r) ∧
      cx = { w.context with table := w.context.table.raiseAll (slots.filterMap Slot.ref?) })
    fun cx => cx = w.context) (ends_retain slots (fun _ => rfl) fun can => ⟨can, rfl⟩) ?_ ?_
  · rintro e cx rfl
    exact failed e
  · rintro _ v ⟨can, hv⟩
    exact held v can hv

/-- A container is stored with its hook, and with its references counted; if that fails, all is as
it was. -/
theorem ends_allocContainer {payload : Payload} {slots : List Slot} (sound : w.context.Sound)
    {P : Except Error Ref → Context → Prop} (failed : ∀ e, P (.error e) w.context)
    (stored : ∀ held grant r table,
      Path w.context ((slots.filterMap Slot.ref?).map .raise) held → held.table.insert grant
        ⟨.fresh held.current held.scopes.activeHome, payload⟩ = .ok (r, table) →
      P (.ok r) { held with
        table := (table.attach r.index).modifyAt r.index
          (Record.setHook (.releaseSlots payload.kind))
        counters := { held.counters with allocated := held.counters.allocated + 1 } }) :
    (allocContainer payload slots).Ends w P := by
  unfold allocContainer
  apply ends_retain_bind failed
  intro v can hv
  refine Ends.bind (P := Either (v.context.Stores payload) fun cx => cx = w.context) ?_ ?_ ?_
  · refine Ends.catching (ends_allocRecord (P := Either (v.context.Stores payload)
      fun cx => cx = v.context) (fun _ => rfl) fun grant r table inserted =>
        ⟨grant, table, inserted, rfl⟩) (fun _ _ h => h) ?_
    intro e u hu
    replace hu : u.context = v.context := hu
    -- the counts that have been added are taken back
    refine Ends.bind (P := fun a cx => a = .ok () ∧ cx = w.context) ?_ ?_ ?_
    · apply ends_unretain (t := w.context.table) (slots.filterMap Slot.ref?)
      · rw [hu, hv]
      · exact fun r hr => (can r hr).isSome
      · rw [hu, hv]
        exact ⟨rfl, rfl⟩
    · rintro e' cx ⟨he, _⟩
      cases he
    · rintro _ u' ⟨_, hu'⟩
      exact ends_throw hu'
  · rintro e cx rfl
    exact failed e
  · rintro r u ⟨grant, table, inserted, hu⟩
    have held : Path w.context ((slots.filterMap Slot.ref?).map .raise) v.context := by
      rw [hv]
      exact path_raiseAll can
    have shown : u.context.table.bare r =
        some ⟨.fresh v.context.current v.context.scopes.activeHome, payload⟩ := by
      rw [hu]
      exact (held.sound sound).bare_of_allocate inserted
    refine Ends.bind (P := fun a cx => a = .ok () ∧ cx = { u.context with
      table := u.context.table.modifyAt r.index
        (Record.setHook (.releaseSlots payload.kind)) }) ?_ ?_ ?_
    · apply ends_installHook
      · intro e occupied
        obtain ⟨record, found, hcore⟩ := Table.bare_eq_some_iff.mp shown
        have free := congrArg (fun s => s.header.hook) hcore
        rw [Record.hook_core] at free
        have := occupied record found
        rw [free] at this
        cases this
      · intro record found free
        exact ⟨rfl, rfl⟩
    · rintro e cx ⟨he, _⟩
      cases he
    · rintro _ u' ⟨_, hu'⟩
      apply ends_pure
      rw [hu', hu]
      exact stored v.context grant r table held inserted

theorem settles_allocContainer {payload : Payload} {slots : List Slot}
    (refs : payload.refs = slots.filterMap Slot.ref?) (paired : payload.Paired) :
    (allocContainer payload slots).Settles (fun _ => none) (fun r => [r]) := by
  intro w sound
  apply ends_allocContainer sound
  · exact fun e => ⟨[], .refl _, settled_error .nil⟩
  · intro held _ r table path inserted
    refine ⟨_, path.trans (.single (.allocateContainer inserted paired)), ?_, ?_⟩
    · refine ((Conduct.raises _).append (Conduct.allocate r payload)).cancel ?_
      intro x
      simp [refs]
    · intro r' hr'
      rw [List.mem_singleton.mp hr']
      exact ⟨payload, by simp⟩

theorem settles_newList (kind : SlotKind) (slots : List Slot) :
    (newList kind slots).Settles (fun _ => none) (fun r => [r]) := by
  intro w sound
  unfold newList
  apply ends_nextGrant_bind
  apply ends_read_bind
  · exact fun e _ => ⟨[], .refl _, settled_error .nil⟩
  · intro l hl
    refine settles_allocContainer ?_ ?_ _ sound
    · rw [← SlotList.items_ofSlots hl]
      rfl
    · trivial

theorem settles_newSet (kind : SlotKind) (slots : List Slot) :
    (newSet kind slots).Settles (fun _ => none) (fun r => [r]) := by
  intro w sound
  unfold newSet
  apply ends_nextGrant_bind
  apply ends_read_bind
  · exact fun e _ => ⟨[], .refl _, settled_error .nil⟩
  · intro l hl
    refine settles_allocContainer ?_ ?_ _ sound
    · rw [← SlotList.items_ofSlots hl]
      rfl
    · trivial

theorem settles_newDict (keyKind valueKind : SlotKind) (keys values : List Slot) :
    (newDict keyKind valueKind keys values).Settles (fun _ => none) (fun r => [r]) := by
  intro w sound
  unfold newDict
  apply ends_nextGrant_bind
  apply ends_nextGrant_bind
  apply ends_read_bind
  · exact fun e _ => ⟨[], .refl _, settled_error .nil⟩
  · intro d hd
    obtain ⟨hkeys, hvalues, paired⟩ := SlotDict.items_ofSlots hd
    refine settles_allocContainer ?_ (show (Payload.dict d).Paired from paired) _ sound
    rw [← hkeys, ← hvalues]
    rfl

theorem onList_eq_ok {f : SlotList → Except Error (α × SlotList)} {p q : Payload} {a : α} :
    (do
      let (a, l) ← f (← p.asList)
      return (a, Payload.list l)) = Except.ok (a, q) ↔
      ∃ l k, p = .list l ∧ f l = .ok (a, k) ∧ q = .list k := by
  constructor
  · intro h
    obtain ⟨l, hl, h⟩ := bind_eq_ok.mp h
    obtain ⟨⟨b, k⟩, hf, h⟩ := bind_eq_ok.mp h
    cases h
    cases p with
    | list =>
      cases hl
      exact ⟨l, k, rfl, hf, rfl⟩
    | raw | str | text | dict | set => cases hl
  · rintro ⟨l, k, rfl, hf, rfl⟩
    exact bind_eq_ok.mpr ⟨l, rfl, bind_eq_ok.mpr ⟨(a, k), hf, rfl⟩⟩

theorem onDict_eq_ok {f : SlotDict → Except Error (α × SlotDict)} {p q : Payload} {a : α} :
    (do
      let (a, d) ← f (← p.asDict)
      return (a, Payload.dict d)) = Except.ok (a, q) ↔
      ∃ d k, p = .dict d ∧ f d = .ok (a, k) ∧ q = .dict k := by
  constructor
  · intro h
    obtain ⟨d, hd, h⟩ := bind_eq_ok.mp h
    obtain ⟨⟨b, k⟩, hf, h⟩ := bind_eq_ok.mp h
    cases h
    cases p with
    | dict =>
      cases hd
      exact ⟨d, k, rfl, hf, rfl⟩
    | raw | str | text | list | set => cases hd
  · rintro ⟨d, k, rfl, hf, rfl⟩
    exact bind_eq_ok.mpr ⟨d, rfl, bind_eq_ok.mpr ⟨(a, k), hf, rfl⟩⟩

theorem onDict_eq_error {f : SlotDict → Except Error (α × SlotDict)} {d : SlotDict} {e : Error}
    (h : (do
      let (a, d) ← f (← (Payload.dict d).asDict)
      return (a, Payload.dict d)) = Except.error e) : f d = .error e := by
  rcases bind_eq_error.mp h with missing | ⟨d', same, h⟩
  · cases missing
  · cases same
    rcases bind_eq_error.mp h with refused | ⟨_, _, h⟩
    · exact refused
    · cases h

variable {β : Type} {F : Payload → Except Error (α × Payload)} {g : α → Act β}
  {R : Except Error β → Context → Prop} {record : Record}

theorem ends_updatePayload_bind
    (failed : ∀ e, (∀ record a q, w.context.table.find? r = some record →
      F record.payload ≠ .ok (a, q)) → R (.error e) w.context)
    (stored : ∀ record a q (v : Workspace), w.context.table.find? r = some record →
      F record.payload = .ok (a, q) → v.context = { w.context with
        table := w.context.table.modifyAt r.index (Record.setPayload q) } → (g a).Ends v R) :
    (updatePayload r F >>= g).Ends w R := by
  refine Ends.bind (P := Either
    (fun a cx => ∃ record q, w.context.table.find? r = some record ∧ F record.payload = .ok (a, q) ∧
      cx = { w.context with table := w.context.table.modifyAt r.index (Record.setPayload q) })
    fun cx => cx = w.context ∧ ∀ record a q, w.context.table.find? r = some record →
      F record.payload ≠ .ok (a, q)) (ends_updatePayload ?_ ?_) ?_ ?_
  · exact fun e none => ⟨rfl, none⟩
  · exact fun record a q found passed => ⟨record, q, found, passed, rfl⟩
  · rintro e cx ⟨rfl, none⟩
    exact failed e none
  · rintro a v ⟨record, q, found, passed, hv⟩
    exact stored record a q v found passed hv

theorem ends_updatePayload_of_find_bind (found : w.context.table.find? r = some record)
    (failed : ∀ e, F record.payload = .error e → R (.error e) w.context)
    (stored : ∀ a q, F record.payload = .ok (a, q) → (g a).Ends { w with
      context := { w.context with
        table := w.context.table.modifyAt r.index (Record.setPayload q) } } R) :
    (updatePayload r F >>= g).Ends w R := by
  have opened : w.context.table.updatePayload r F = F record.payload >>= fun p =>
      .ok (p.1, w.context.table.modifyAt r.index (Record.setPayload p.2)) := by
    rw [Table.updatePayload, Table.find_eq_ok_iff.mpr found]
    rfl
  apply ends_onTable_bind
  · intro e h
    rw [opened] at h
    rcases bind_eq_error.mp h with refused | ⟨p, _, h⟩
    · exact failed e refused
    · cases h
  · intro a table h
    rw [opened] at h
    obtain ⟨p, passed, h⟩ := bind_eq_ok.mp h
    cases h
    exact stored p.1 p.2 passed

/-- A container takes in slots, which are counted first. Since the record is there and its payload
can be updated, counting is all that can fail. -/
theorem ends_intake {slots : List Slot} {a : α} {q : Payload}
    (found : w.context.table.find? r = some record) (passed : F record.payload = .ok (a, q))
    (failed : ∀ e, R (.error e) w.context)
    (stored : ∀ v : Workspace, (∀ r ∈ slots.filterMap Slot.ref?, w.context.table.CanRaise r) →
      v.context = { w.context with
        table := (w.context.table.raiseAll (slots.filterMap Slot.ref?)).modifyAt r.index
          (Record.setPayload q) } → (g a).Ends v R) :
    (retain slots >>= fun _ => updatePayload r F >>= g).Ends w R := by
  apply ends_retain_bind failed
  intro v can hv
  have after : v.context.table.find? r =
      some (record.raised ((slots.filterMap Slot.ref?).count r)) := by
    rw [hv, Table.find?_raiseAll fun r hr => (can r hr).isSome, found]
    rfl
  apply ends_updatePayload_bind
  · intro e none
    refine absurd ?_ (none _ a q after)
    rwa [Record.payload_raised]
  · intro record' a' q' u found' passed' hu
    obtain rfl := Option.some.inj (after.symm.trans found')
    rw [Record.payload_raised, passed] at passed'
    cases passed'
    apply stored u can
    rw [hu, hv]

/-- For what it takes in, a container gives away the references `out`. -/
theorem ends_exchange {slots : List Slot} {a : α} (q : Payload) (out : List Ref)
    (found : w.context.table.find? r = some record) (passed : F record.payload = .ok (a, q))
    (kind : q.kind = record.payload.kind) (paired : q.Paired)
    (change : ∀ x, record.payload.refs.count x + (slots.filterMap Slot.ref?).count x =
      q.refs.count x + out.count x)
    (failed : ∀ e, R (.error e) w.context)
    (stored : ∀ (v : Workspace) ds, Path w.context ds v.context → Conduct ds none [] out →
      (g a).Ends v R) : (retain slots >>= fun _ => updatePayload r F >>= g).Ends w R := by
  apply ends_intake found passed failed
  intro v can hv
  have after : (w.context.table.raiseAll (slots.filterMap Slot.ref?)).find? r =
      some (record.raised ((slots.filterMap Slot.ref?).count r)) := by
    rw [Table.find?_raiseAll fun r hr => (can r hr).isSome, found]
    rfl
  have move : Move { w.context with table := w.context.table.raiseAll (slots.filterMap Slot.ref?) }
      (.store r record.payload q) v.context := by
    rw [hv, ← Record.payload_raised record]
    exact .store after paired
  refine stored v _ ((path_raiseAll can).trans (.single move))
    (((Conduct.raises _).append (.store kind change)).cancel ?_)
  intro x
  simp

theorem ends_dropSlot_of_conduct {v : Workspace} {old : Slot} {ds : List Deed}
    (path : Path w.context ds v.context)
    (conduct : Conduct ds none [] ([old].filterMap Slot.ref?)) :
    (dropSlot old).Ends v fun a cx => ∃ es, Path w.context es cx ∧
      Settled id (fun _ => []) a es cx := by
  apply (ends_dropSlot old v).mono
  intro a cx h
  cases a with
  | ok doomed =>
    obtain ⟨es, rest, dropped⟩ := h
    refine ⟨ds ++ es, path.trans rest, (conduct.append dropped).cancel ?_, by simp⟩
    intro x
    simp
  | error e =>
    obtain ⟨rfl, unheld⟩ := h
    exact ⟨ds, path, _, conduct, unheld⟩

theorem path_rearrange {q : Payload} {v : Workspace} (found : w.context.table.find? r = some record)
    (kind : q.kind = record.payload.kind) (refs : q.refs = record.payload.refs) (paired : q.Paired)
    (hv : v.context = { w.context with
      table := w.context.table.modifyAt r.index (Record.setPayload q) }) :
    ∃ ds, Path w.context ds v.context ∧ Conduct ds none [] [] ∧
      v.context.table.find? r = some (record.setPayload q) := by
  refine ⟨[.store r record.payload q], ?_, .store kind ?_, ?_⟩
  · rw [hv]
    exact .single (.store found paired)
  · intro x
    rw [refs]
  · rw [hv, Table.find?_modifyAt_self found]

theorem ends_reserveList_bind {limit : Nat} {f : Unit → Act β}
    (failed : ∀ e, R (.error e) w.context)
    (roomy : ∀ record l k (v : Workspace), w.context.table.find? r = some record →
      record.payload = .list l → l.Grows limit k → v.context = { w.context with
        table := w.context.table.modifyAt r.index (Record.setPayload (.list k)) } →
      (f ()).Ends v R) :
    (reserveList r limit >>= f).Ends w R := by
  unfold reserveList
  rw [bind_assoc]
  apply ends_nextGrant_bind
  refine ends_updatePayload_bind (fun e _ => failed e) ?_
  intro record _ q v found passed hv
  obtain ⟨l, k, hl, reserved, rfl⟩ := onList_eq_ok.mp passed
  obtain ⟨k', hk, h⟩ := bind_eq_ok.mp reserved
  cases h
  exact roomy record l k v found hl (SlotList.grows_of_reserve hk) hv

theorem settles_listPush (r : Ref) (v : Slot) :
    (listPush r v).Settles (fun _ => none) (fun _ => []) := by
  intro w sound
  have failed : ∀ e : Error, ∃ ds, Path w.context ds w.context ∧
      Settled (α := Unit) (fun _ => none) (fun _ => []) (.error e) ds w.context :=
    fun e => ⟨[], .refl _, settled_error .nil⟩
  unfold listPush
  apply ends_read_bind (fun e _ => failed e)
  intro _ _
  apply ends_read_bind (fun e _ => failed e)
  intro _ _
  apply ends_context_bind
  apply ends_reserveList_bind failed
  intro record l k v₁ found hl hk hv₁
  have refs : (Payload.list k).refs = record.payload.refs := by
    rw [hl, Payload.refs, Payload.slots, hk.items]
    rfl
  obtain ⟨ds, roomy, conduct, found₁⟩ := path_rearrange found (by rw [hl]; rfl) refs trivial hv₁
  refine ends_exchange (.list (k.push v)) [] found₁ (onList_eq_ok.mpr ⟨k, _, rfl, rfl, rfl⟩) rfl
    trivial ?_ ?_ ?_
  · intro x
    simp [Record.setPayload, Payload.refs, Payload.slots, SlotList.push]
  · exact fun e => ⟨_, roomy, settled_error conduct⟩
  · intro v₂ es path pushed
    exact ends_notify ⟨_, roomy.trans path, conduct.append pushed, by simp⟩

theorem settles_listPop (r : Ref) : (listPop r).Settles (·.2) (fun _ => []) := by
  intro w sound
  unfold listPop
  apply ends_updatePayload_bind
  · exact fun e _ => ⟨[], .refl _, settled_error .nil⟩
  · intro record v q v₁ found passed hv₁
    obtain ⟨l, k, hl, popped, rfl⟩ := onList_eq_ok.mp passed
    have path : Path w.context [.store r record.payload (.list k)] v₁.context := by
      rw [hv₁]
      exact .single (.store found trivial)
    have conduct : Conduct [.store r record.payload (.list k)] none []
        ([v].filterMap Slot.ref?) := by
      refine .store (by rw [hl]; rfl) ?_
      intro x
      rw [hl, Payload.refs, Payload.refs, Payload.slots, Payload.slots, SlotList.items_pop popped,
        List.filterMap_append, List.count_append, List.count_nil]
      rfl
    exact (ends_dropSlot_of_conduct path conduct).map _ (fun e cx h => h) fun doomed cx h => h

theorem settles_listSet (r : Ref) (index : Int) (v : Slot) :
    (listSet r index v).Settles id (fun _ => []) := by
  intro w sound
  have failed : ∀ e : Error, ∃ ds, Path w.context ds w.context ∧
      Settled id (fun _ => []) (.error e) ds w.context :=
    fun e => ⟨[], .refl _, settled_error .nil⟩
  unfold listSet
  apply ends_read_bind (fun e _ => failed e)
  intro i hi
  obtain ⟨l, hl, hi⟩ := bind_eq_ok.mp hi
  obtain ⟨_, _, hi⟩ := bind_eq_ok.mp hi
  obtain ⟨record, found, payload⟩ := Context.list_eq_ok hl
  obtain ⟨old, hold⟩ := SlotList.exists_item_of_position hi
  refine ends_exchange (.list (l.replace i v)) ([old].filterMap Slot.ref?) found
    (onList_eq_ok.mpr ⟨l, _, payload, rfl, rfl⟩) (by rw [payload]; rfl) trivial ?_ failed ?_
  · rw [payload]
    exact SlotList.count_replace hold
  · intro v₁ ds path conduct
    rw [hold]
    exact ends_dropSlot_of_conduct path conduct

theorem settles_dictReplace {r : Ref} {i : Nat} {v : Slot} {record : Record} {d : SlotDict}
    (found : w.context.table.find? r = some record) (payload : record.payload = .dict d)
    (paired : d.Paired) (lt : i < d.values.length) :
    (dictReplace r i v).Ends w fun a cx => ∃ ds, Path w.context ds cx ∧
      Settled id (fun _ => []) a ds cx := by
  obtain ⟨old, hold⟩ : ∃ old, d.values.items[i]? = some old := ⟨_, List.getElem?_eq_getElem lt⟩
  unfold dictReplace
  refine ends_exchange (.dict { d with values := d.values.replace i v }) ([old].filterMap Slot.ref?)
    found (onDict_eq_ok.mpr ⟨d, _, payload, rfl, rfl⟩) (by rw [payload]; rfl) ?_ ?_
    (fun e => ⟨[], .refl _, settled_error .nil⟩) ?_
  · exact paired.replace i v
  · intro x
    have change := SlotList.count_replace (v := v) hold x
    simp only [payload, Payload.refs, Payload.slots, List.filterMap_append, List.count_append]
    omega
  · intro v₁ ds path conduct
    rw [hold]
    exact ends_dropSlot_of_conduct path conduct

/-- Both lists of a dict make room for one more slot, or none does, or the memory lasts for the keys
alone. -/
theorem ends_reserveDict_bind {limit : Nat} {f : Unit → Act β} (sound : w.context.Sound)
    (failed : ∀ e, R (.error e) w.context)
    (starved : ∀ record d e err, w.context.table.find? r = some record →
      record.payload = .dict d → d.Paired → d.Starves limit w.grants e err →
      R (.error err) { w.context with
        table := w.context.table.modifyAt r.index (Record.setPayload (.dict e)) })
    (roomy : ∀ record d e (v : Workspace), w.context.table.find? r = some record →
      record.payload = .dict d → d.Paired → d.Grows limit e → v.context = { w.context with
        table := w.context.table.modifyAt r.index (Record.setPayload (.dict e)) } →
      (f ()).Ends v R) :
    (reserveDict r limit >>= f).Ends w R := by
  unfold reserveDict
  simp only [bind_assoc]
  apply ends_nextGrant_bind
  cases found : w.context.table.find? r with
  | none =>
    refine ends_updatePayload_bind (fun e _ => failed e) fun record _ _ _ found' => ?_
    cases found.symm.trans found'
  | some record =>
    refine ends_updatePayload_of_find_bind found (fun e _ => failed e) ?_
    intro _ q passed
    obtain ⟨d, _, hd, reserved, rfl⟩ := onDict_eq_ok.mp passed
    obtain ⟨keys, hkeys, h⟩ := bind_eq_ok.mp reserved
    cases h
    have grows := SlotList.grows_of_reserve hkeys
    have paired := sound.paired_dict found hd
    apply ends_nextGrant_bind
    refine ends_updatePayload_of_find_bind (Table.find?_modifyAt_self found _) ?_ ?_
    · intro err failing
      have refused : d.values.reserve limit (w.grants 1) = .error err := by
        rcases bind_eq_error.mp (onDict_eq_error failing) with refused | ⟨_, _, h⟩
        · exact refused
        · cases h
      dsimp only
      rcases paired.starve grows refused with rfl | starves
      · rw [← hd]
        exact (restore_eq found).symm ▸ failed err
      · exact starved record d _ err found hd paired starves
    · intro _ q passed
      obtain ⟨_, _, hd₁, reserved, rfl⟩ := onDict_eq_ok.mp passed
      cases hd₁
      obtain ⟨values, hvalues, h⟩ := bind_eq_ok.mp reserved
      cases h
      refine roomy record d ⟨keys, values⟩ _ found hd paired
        ⟨grows, SlotList.grows_of_reserve hvalues⟩ ?_
      exact congrArg (fun t => { w.context with table := t }) (Table.modifyAt_modifyAt _ _ _ _)

theorem settles_dictAppend (r : Ref) (key v : Slot) :
    (dictAppend r key v).Settles (fun _ => none) (fun _ => []) := by
  intro w sound
  unfold dictAppend
  apply ends_context_bind
  apply ends_reserveDict_bind sound
  · exact fun e => ⟨[], .refl _, settled_error .nil⟩
  · intro record d e err found hd paired starves
    obtain ⟨ds, path, conduct, _⟩ := path_rearrange (v := ⟨_, w.journal, w.grants⟩)
      (q := .dict e) found (by rw [hd]; rfl) (by rw [hd, Payload.refs, starves.slots]; rfl)
      (paired.of_starves starves) rfl
    exact ⟨ds, path, settled_error conduct⟩
  intro record d e v₁ found hd paired grows hv₁
  obtain ⟨paired', capacity, room⟩ := paired.grow grows
  have refs : (Payload.dict e).refs = record.payload.refs := by
    rw [hd, Payload.refs, grows.slots]
    rfl
  obtain ⟨ds, path, conduct, found₁⟩ := path_rearrange found (by rw [hd]; rfl) refs paired' hv₁
  rw [← bind_pure (updateDict r _)]
  refine ends_exchange (.dict ⟨e.keys.push key, e.values.push v⟩) [] found₁
    (onDict_eq_ok.mpr ⟨e, _, rfl, rfl, rfl⟩) rfl (paired'.push capacity room key v) ?_ ?_ ?_
  · intro x
    have both : [key, v].filterMap Slot.ref? =
        [key].filterMap Slot.ref? ++ [v].filterMap Slot.ref? := List.filterMap_append (l := [key])
    simp only [both, Record.setPayload, Payload.refs, Payload.slots, SlotList.push,
      List.filterMap_append, List.count_append, List.count_nil]
    omega
  · exact fun e => ⟨_, path, settled_error conduct⟩
  · intro v₂ es path' pushed
    exact ends_pure ⟨_, path.trans path', conduct.append pushed, by simp⟩

theorem settles_dictInsert (r : Ref) (key v : Slot) :
    (dictInsert r key v).Settles id (fun _ => []) := by
  intro w sound
  unfold dictInsert
  apply ends_read_bind
  · exact fun e _ => ⟨[], .refl _, settled_error .nil⟩
  · intro position hposition
    obtain ⟨d, hd, hposition⟩ := bind_eq_ok.mp hposition
    obtain ⟨_, _, hposition⟩ := bind_eq_ok.mp hposition
    obtain ⟨record, found, payload⟩ := Context.dict_eq_ok hd
    have paired := sound.paired_dict found payload
    cases position with
    | some i =>
      refine settles_dictReplace found payload paired ?_
      rw [← paired.length]
      exact Table.lt_length_of_search hposition
    | none =>
      exact (settles_dictAppend r key v w sound).map _ (fun e cx h => h) fun _ cx h => h

end Act

end ScopedHeap
