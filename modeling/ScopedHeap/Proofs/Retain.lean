import ScopedHeap.Containers
import ScopedHeap.Proofs.Outcome

/-!
# Counting many references at once

`Table.raiseAll` counts each reference of a list. Counting can be taken back in any order, so
`retain` either counts all references of its slots or leaves the context exactly as it was
(`ends_retain`).
-/
namespace ScopedHeap

namespace Record

/-- Adds `n` to the count of a record, unless it is static. -/
def raised (n : Nat) (r : Record) : Record :=
  if r.header.creationScope = staticScope then r else r.setRefcount (r.header.refcount + n)

variable (r : Record) (n k : Nat)

@[simp] theorem creationScope_raised :
    (r.raised n).header.creationScope = r.header.creationScope := by
  unfold raised
  split <;> rfl

@[simp] theorem state_raised : (r.raised n).header.state = r.header.state := by
  unfold raised
  split <;> rfl

@[simp] theorem payload_raised : (r.raised n).payload = r.payload := by
  unfold raised
  split <;> rfl

theorem raised_zero : r.raised 0 = r := by
  unfold raised
  split <;> rfl

theorem raised_raised : (r.raised n).raised k = r.raised (n + k) := by
  by_cases h : r.header.creationScope = staticScope
  · simp [raised, h]
  · have h' : (r.setRefcount (r.header.refcount + n)).header.creationScope ≠ staticScope := h
    unfold raised
    rw [if_neg h, if_neg h', if_neg h]
    simp [setRefcount, Nat.add_assoc]

theorem raised_setPayload (p : Payload) :
    (r.setPayload p).raised n = (r.raised n).setPayload p := by
  by_cases h : r.header.creationScope = staticScope
  · rw [raised, raised, if_pos h]
    exact if_pos h
  · rw [raised, raised, if_neg h]
    exact if_neg h

end Record

namespace Table

variable {t : Table} {r x : Ref} {record : Record} {refs : List Ref}

def raise (t : Table) (r : Ref) : Table := t.modifyAt r.index (Record.raised 1)

def raiseAll (t : Table) (refs : List Ref) : Table := refs.foldl raise t

@[simp] theorem raiseAll_nil (t : Table) : t.raiseAll [] = t := rfl

theorem raiseAll_cons (t : Table) (r : Ref) (refs : List Ref) :
    t.raiseAll (r :: refs) = (t.raise r).raiseAll refs := rfl

theorem raiseAll_append (t : Table) (done refs : List Ref) :
    t.raiseAll (done ++ refs) = (t.raiseAll done).raiseAll refs := List.foldl_append

theorem raise_comm (t : Table) (r x : Ref) : (t.raise r).raise x = (t.raise x).raise r :=
  t.modifyAt_comm _ _ fun _ => rfl

theorem raiseAll_setPayload (t : Table) (i : Nat) (p : Payload) (refs : List Ref) :
    (t.modifyAt i (Record.setPayload p)).raiseAll refs =
      (t.raiseAll refs).modifyAt i (Record.setPayload p) := by
  induction refs generalizing t with
  | nil => rfl
  | cons r refs ih =>
    rw [raiseAll_cons, raiseAll_cons, ← ih]
    exact congrArg (raiseAll · refs) (t.modifyAt_comm _ _ (Record.raised_setPayload · 1 p)).symm

theorem raiseAll_raise (t : Table) (r : Ref) (refs : List Ref) :
    (t.raise r).raiseAll refs = (t.raiseAll refs).raise r := by
  induction refs generalizing t with
  | nil => rfl
  | cons x refs ih => rw [raiseAll_cons, raise_comm, ih, ← raiseAll_cons]

theorem raise_of_static (found : t.find? r = some record)
    (static : record.header.creationScope = staticScope) : t.raise r = t := by
  apply modifyAt_eq_self
  intro other hother
  rw [(find?_eq_some.mp found).2] at hother
  rw [← Option.some.inj hother, Record.raised, if_pos static]

theorem raise_of_tracked (found : t.find? r = some record)
    (tracked : record.header.creationScope ≠ staticScope) :
    t.raise r = t.modifyAt r.index (Record.setRefcount (record.header.refcount + 1)) := by
  apply modifyAt_congr
  intro other hother
  rw [(find?_eq_some.mp found).2] at hother
  rw [← Option.some.inj hother, Record.raised, if_neg tracked]

theorem find?_raise (found : t.find? r = some record) (x : Ref) :
    (t.raise r).find? x = if x = r then some (record.raised 1) else t.find? x :=
  find?_modifyAt_of_find? found _ x

theorem find?_raiseAll (found : ∀ r ∈ refs, (t.find? r).isSome = true) (x : Ref) :
    (t.raiseAll refs).find? x = (t.find? x).map (Record.raised (refs.count x)) := by
  induction refs generalizing t with
  | nil =>
    cases h : t.find? x with
    | none => simp [h]
    | some record => simp [h, Record.raised_zero]
  | cons r refs ih =>
    obtain ⟨record, hrecord⟩ := Option.isSome_iff_exists.mp (found r List.mem_cons_self)
    have hraise := find?_raise hrecord
    have still : ∀ r' ∈ refs, ((t.raise r).find? r').isSome = true := by
      intro r' hr'
      rw [hraise]
      split
      · rfl
      · exact found r' (List.mem_cons_of_mem _ hr')
    rw [raiseAll_cons, ih still, hraise]
    by_cases e : x = r
    · subst e
      rw [if_pos rfl, hrecord, List.count_cons_self, Option.map_some, Option.map_some,
        Record.raised_raised, Nat.add_comm]
    · rw [if_neg e, List.count_cons_of_ne (Ne.symm e)]

theorem modifyAt_raise (found : t.find? r = some record) :
    (t.raise r).modifyAt r.index (Record.setRefcount record.header.refcount) = t := by
  rw [raise, modifyAt_modifyAt]
  apply modifyAt_eq_self
  intro other hother
  rw [(find?_eq_some.mp found).2] at hother
  rw [← Option.some.inj hother, Function.comp_apply, Record.raised]
  split <;> rfl

/-- The record a reference finds can be counted. -/
def CanRaise (t : Table) (r : Ref) : Prop :=
  ∃ record, t.find? r = some record ∧
    (record.header.creationScope = staticScope ∨ record.header.state ≠ .pending)

theorem CanRaise.isSome (h : t.CanRaise r) : (t.find? r).isSome = true := by
  obtain ⟨record, found, _⟩ := h
  rw [found]
  rfl

/-- The record is there, and it is static or something is counted. -/
def Held (t : Table) (r : Ref) : Prop :=
  ∃ record, t.find? r = some record ∧
    (record.header.creationScope = staticScope ∨ 0 < record.header.refcount)

instance : Decidable (t.Held r) := inferInstanceAs (Decidable (∃ record ∈ t.find? r,
  record.header.creationScope = staticScope ∨ 0 < record.header.refcount))

theorem Held.modifyAt {f : Record → Record} (h : t.Held x) (i : Nat)
    (scope : ∀ record, (f record).header.creationScope = record.header.creationScope)
    (count : ∀ record, record.header.refcount ≤ (f record).header.refcount) :
    (t.modifyAt i f).Held x := by
  obtain ⟨record, found, held⟩ := h
  rw [Held, find?_modifyAt, found]
  split
  · exact ⟨f record, rfl, held.imp ((scope record).trans ·) (Nat.lt_of_lt_of_le · (count record))⟩
  · exact ⟨record, rfl, held⟩

theorem Held.setPayload (h : t.Held x) (i : Nat) (p : Payload) :
    (t.modifyAt i (Record.setPayload p)).Held x :=
  h.modifyAt i (fun _ => rfl) fun _ => Nat.le_refl _

theorem Held.raiseAll (h : t.Held x) (refs : List Ref) : (t.raiseAll refs).Held x := by
  induction refs generalizing t with
  | nil => exact h
  | cons r refs ih =>
    refine ih (h.modifyAt r.index (Record.creationScope_raised · 1) ?_)
    intro record
    rw [Record.raised]
    split
    · exact Nat.le_refl _
    · exact Nat.le_succ _

/-- Why a reference is not counted: its record is gone, or waits to be destroyed. -/
inductive Declines (t : Table) (r : Ref) : Error → Prop
  | dangling (absent : t.find? r = none) : Declines t r (dangling r)
  | pending {record : Record} (found : t.find? r = some record)
      (tracked : record.header.creationScope ≠ staticScope)
      (pending : record.header.state = .pending) : Declines t r (.pendingResurrection r.index)

theorem canRaise_raiseAll (found : ∀ r ∈ refs, (t.find? r).isSome = true)
    (h : (t.raiseAll refs).CanRaise x) : t.CanRaise x := by
  obtain ⟨record, hrecord, free⟩ := h
  rw [find?_raiseAll found] at hrecord
  obtain ⟨old, hold, rfl⟩ := Option.map_eq_some_iff.mp hrecord
  rw [Record.creationScope_raised, Record.state_raised] at free
  exact ⟨old, hold, free⟩

theorem declines_raiseAll {e : Error} (found : ∀ r ∈ refs, (t.find? r).isSome = true)
    (h : (t.raiseAll refs).Declines x e) : t.Declines x e := by
  cases h with
  | dangling absent =>
    rw [find?_raiseAll found, Option.map_eq_none_iff] at absent
    exact .dangling absent
  | pending hrecord tracked pending =>
    rw [find?_raiseAll found] at hrecord
    obtain ⟨old, hold, rfl⟩ := Option.map_eq_some_iff.mp hrecord
    rw [Record.creationScope_raised] at tracked
    rw [Record.state_raised] at pending
    exact .pending hold tracked pending

end Table

namespace Act

open Table

variable {w : Workspace} {t : Table} {r : Ref}

theorem tracks_heap {h : Header} {current : ScopeId} :
    Family.heap.tracks h current = true ↔ h.creationScope ≠ staticScope := by
  simp [Family.tracks]

theorem ends_increment_heap (r : Ref) (w : Workspace) {P : Except Error Unit → Context → Prop}
    (failed : ∀ e, w.context.table.Declines r e → P (.error e) w.context)
    (raised : w.context.table.CanRaise r →
      P (.ok ()) { w.context with table := w.context.table.raise r }) :
    (increment .heap r).Ends w P := by
  apply (ends_increment .heap r w).mono
  intro a cx h
  cases h with
  | dangling absent => exact failed _ (.dangling absent)
  | refused found tracked pending =>
    exact failed _ (.pending found (tracks_heap.mp tracked) pending)
  | @ignored record found untracked =>
    have static : record.header.creationScope = staticScope := by
      rwa [← Bool.not_eq_true, tracks_heap, not_not] at untracked
    have same := raised ⟨record, found, Or.inl static⟩
    rwa [raise_of_static found static] at same
  | @raised record found tracked awake =>
    rw [← raise_of_tracked found (tracks_heap.mp tracked)]
    exact raised ⟨record, found, Or.inr awake⟩

/-- A decrement takes back one count where it keeps the record, or where others are left. -/
theorem ends_decrement_raise {keep : Bool} (hw : w.context.table = t.raise r)
    (found : (t.find? r).isSome = true) (stays : keep = true ∨ t.Held r) :
    (decrement .heap keep r).Ends w fun a cx =>
      a = .ok none ∧ cx = { w.context with table := t } := by
  obtain ⟨record, hrecord⟩ := Option.isSome_iff_exists.mp found
  have after : ∀ record', w.context.table.find? r = some record' → record' = record.raised 1 := by
    intro record' hrecord'
    rw [hw, find?_raise hrecord, if_pos rfl] at hrecord'
    exact (Option.some.inj hrecord').symm
  have last : keep = false → record.header.creationScope ≠ staticScope →
      (record.raised 1).header.refcount ≠ 1 := by
    intro gives tracked
    obtain ⟨other, hother, held⟩ := stays.resolve_left (by rw [gives]; exact Bool.false_ne_true)
    obtain rfl := Option.some.inj (hrecord.symm.trans hother)
    rw [Record.raised, if_neg tracked]
    exact fun one => Nat.ne_of_gt (held.resolve_left tracked) (Nat.succ.inj one)
  apply (ends_decrement .heap keep r w).mono
  intro a cx h
  cases h with
  | dangling absent =>
    rw [hw, find?_raise hrecord, if_pos rfl] at absent
    cases absent
  | ignored found' untracked =>
    obtain rfl := after _ found'
    have static : record.header.creationScope = staticScope := by
      rwa [← Bool.not_eq_true, tracks_heap, not_not, Record.creationScope_raised] at untracked
    rw [raise_of_static hrecord static] at hw
    rw [← hw]
    exact ⟨rfl, rfl⟩
  | underflow found' tracked zero =>
    obtain rfl := after _ found'
    rw [tracks_heap, Record.creationScope_raised] at tracked
    rw [Record.raised, if_neg tracked] at zero
    cases zero
  | @lowered _ n found' tracked count stays =>
    obtain rfl := after _ found'
    rw [tracks_heap, Record.creationScope_raised] at tracked
    rw [Record.raised, if_neg tracked] at count
    have hn : record.header.refcount = n := Nat.succ.inj count
    rw [hw, ← hn, modifyAt_raise hrecord]
    exact ⟨rfl, rfl⟩
  | destroyed found' tracked one gives | deferred found' tracked one gives =>
    obtain rfl := after _ found'
    rw [tracks_heap, Record.creationScope_raised] at tracked
    exact absurd one (last gives tracked)

/-- A slot can be dropped again for which a count has been added, if others are left. -/
theorem ends_dropSlot_raise {v : Slot} (hw : w.context.table = t.raiseAll ([v].filterMap Slot.ref?))
    (held : ∀ x, v.ref? = some x → t.Held x) : (dropSlot v).Ends w fun a cx =>
      a = .ok none ∧ cx = { w.context with table := t } := by
  unfold dropSlot
  cases hv : v.ref? with
  | none =>
    rw [List.filterMap_cons_none hv] at hw
    refine ends_pure ⟨rfl, ?_⟩
    rw [← show w.context.table = t from hw]
  | some x =>
    rw [List.filterMap_cons_some hv] at hw
    obtain ⟨record, found, _⟩ := held x hv
    exact ends_decrement_raise hw (by rw [found]; rfl) (Or.inr (held x hv))

theorem ends_unretain {P : Except Error Unit → Context → Prop} (refs : List Ref)
    (hw : w.context.table = t.raiseAll refs) (found : ∀ r ∈ refs, (t.find? r).isSome = true)
    (h : P (.ok ()) { w.context with table := t }) : (unretain refs).Ends w P := by
  induction refs generalizing w with
  | nil =>
    rw [raiseAll_nil] at hw
    subst hw
    exact ends_pure h
  | cons r refs ih =>
    have rest : ∀ r' ∈ refs, (t.find? r').isSome = true :=
      fun r' hr' => found r' (List.mem_cons_of_mem _ hr')
    have hr : ((t.raiseAll refs).find? r).isSome = true := by
      rw [find?_raiseAll rest, Option.isSome_map]
      exact found r List.mem_cons_self
    rw [raiseAll_cons, raiseAll_raise] at hw
    unfold unretain
    refine Ends.bind (P := fun a cx =>
      a = .ok () ∧ cx = { w.context with table := t.raiseAll refs }) ?_ ?_ ?_
    · refine Ends.catching ((ends_decrement_raise hw hr (Or.inl rfl)).map (R := fun a cx =>
        a = .ok () ∧ cx = { w.context with table := t.raiseAll refs }) (fun _ => ()) ?_ ?_) ?_ ?_
      · rintro e cx ⟨he, _⟩
        cases he
      · rintro a cx ⟨_, hcx⟩
        exact ⟨rfl, hcx⟩
      · exact fun a cx h => h
      · rintro e v ⟨he, _⟩
        cases he
    · rintro e cx ⟨he, _⟩
      cases he
    · rintro _ v ⟨_, hv⟩
      have table : v.context.table = t.raiseAll refs := by rw [hv]
      have same : { v.context with table := t } = { w.context with table := t } := by rw [hv]
      exact ih table rest (by rw [same]; exact h)

/-- Counting stops at the first reference that declines, and then all is as it was. -/
theorem ends_retainFrom {P : Except Error Unit → Context → Prop} (done refs : List Ref)
    (hw : w.context.table = t.raiseAll done) (hdone : ∀ r ∈ done, t.CanRaise r)
    (failed : ∀ e before r after, done ++ refs = before ++ r :: after →
      (∀ x ∈ before, t.CanRaise x) → t.Declines r e → P (.error e) { w.context with table := t })
    (held : (∀ r ∈ done ++ refs, t.CanRaise r) →
      P (.ok ()) { w.context with table := t.raiseAll (done ++ refs) }) :
    (retainFrom done refs).Ends w P := by
  have found : ∀ r ∈ done, (t.find? r).isSome = true := fun r hr => (hdone r hr).isSome
  induction refs generalizing done w with
  | nil =>
    rw [List.append_nil] at held
    have all := held hdone
    rw [← hw] at all
    exact ends_pure all
  | cons r refs ih =>
    unfold retainFrom
    -- either the count of `r` goes up, or everything is back where it began
    refine Ends.bind (P := fun a cx => (a = .ok () ∧ t.CanRaise r ∧
        cx = { w.context with table := t.raiseAll (done ++ [r]) }) ∨
      ∃ e, a = .error e ∧ t.Declines r e ∧ cx = { w.context with table := t }) ?_ ?_ ?_
    · refine Ends.catching (ends_increment_heap r w (P := fun a cx => (a = .ok () ∧
        t.CanRaise r ∧ cx = { w.context with table := t.raiseAll (done ++ [r]) }) ∨
        ∃ e, a = .error e ∧ t.Declines r e ∧ cx = w.context) ?_ ?_) ?_ ?_
      · intro e declines
        rw [hw] at declines
        exact Or.inr ⟨e, rfl, declines_raiseAll found declines, rfl⟩
      · intro can
        rw [hw] at can ⊢
        rw [raiseAll_append]
        exact Or.inl ⟨rfl, canRaise_raiseAll found can, rfl⟩
      · rintro a cx (counted | ⟨e, he, _⟩)
        · exact Or.inl counted
        · cases he
      · rintro e v (⟨he, _⟩ | ⟨_, he, declines, hv⟩)
        · cases he
        cases he
        refine Ends.bind (P := fun a cx => a = .ok () ∧ cx = { w.context with table := t }) ?_ ?_ ?_
        · apply ends_unretain done (by rw [hv, hw]) found
          rw [hv]
          exact ⟨rfl, rfl⟩
        · rintro e' cx ⟨he, _⟩
          cases he
        · rintro _ u ⟨_, hu⟩
          exact ends_throw (Or.inr ⟨e, rfl, declines, hu⟩)
    · rintro e cx (⟨he, _⟩ | ⟨_, he, declines, rfl⟩)
      · cases he
      · cases he
        exact failed e done r refs rfl hdone declines
    · rintro _ v (⟨_, can, hv⟩ | ⟨_, he, _⟩)
      swap
      · cases he
      have grown : ∀ r' ∈ done ++ [r], t.CanRaise r' := by
        intro r' hr'
        rcases List.mem_append.mp hr' with hr' | hr'
        · exact hdone r' hr'
        · rw [List.mem_singleton.mp hr']
          exact can
      have split : done ++ r :: refs = (done ++ [r]) ++ refs := by simp
      have same : ∀ u : Table, { v.context with table := u } = { w.context with table := u } := by
        intro u
        rw [hv]
      refine ih (done ++ [r]) (by rw [hv]) grown ?_ ?_ fun r' hr' => (grown r' hr').isSome
      · rw [same, ← split]
        exact failed
      · rw [same, ← split]
        exact held

/-- Counting the references of slots fails for the first slot that may not hold its record, or else
for the first reference that declines to be counted. -/
theorem ends_retain_exact {P : Except Error Unit → Context → Prop} (slots : List Slot)
    (misfit : ∀ e, slots.forM (checkSlot w.context) = .error e → P (.error e) w.context)
    (refused : ∀ e before r after, slots.forM (checkSlot w.context) = .ok () →
      slots.filterMap Slot.ref? = before ++ r :: after →
      (∀ x ∈ before, w.context.table.CanRaise x) → w.context.table.Declines r e →
      P (.error e) w.context)
    (held : slots.forM (checkSlot w.context) = .ok () →
      (∀ r ∈ slots.filterMap Slot.ref?, w.context.table.CanRaise r) →
      P (.ok ()) { w.context with
        table := w.context.table.raiseAll (slots.filterMap Slot.ref?) }) :
    (retain slots).Ends w P := by
  unfold retain
  apply ends_read_bind misfit
  intro _ checked
  apply ends_retainFrom [] _ rfl
  · intro r hr
    cases hr
  · exact fun e before r after => refused e before r after checked
  · exact held checked

/-- Counting the references of slots either succeeds for all of them or changes nothing. -/
theorem ends_retain {P : Except Error Unit → Context → Prop} (slots : List Slot)
    (failed : ∀ e, P (.error e) w.context)
    (held : (∀ r ∈ slots.filterMap Slot.ref?, w.context.table.CanRaise r) →
      P (.ok ()) { w.context with
        table := w.context.table.raiseAll (slots.filterMap Slot.ref?) }) :
    (retain slots).Ends w P :=
  ends_retain_exact slots (fun e _ => failed e) (fun e _ _ _ _ _ _ _ => failed e) fun _ => held

end Act

end ScopedHeap
