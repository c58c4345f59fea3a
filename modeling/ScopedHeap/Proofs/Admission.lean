import ScopedHeap.Proofs.Conduct
import ScopedHeap.Proofs.Exits

/-!
# Which slots are admitted

Before slots are stored, every record they refer to is looked at and then counted. A slot is
admitted if its record is there, holds what the kind of the slot requires and does not wait to be
destroyed (`Table.Admits`). Either all slots are admitted, and then every record is counted as often
as slots refer to it, or nothing has changed (`Context.Retained`).
-/
namespace ScopedHeap

open Context

/-- What slots of a kind require their records to hold. Generic slots refer to anything. -/
def SlotKind.required : SlotKind → Option PayloadKind
  | str => some .str
  | text => some .text
  | object | byte | float | uint | int => none

namespace Table

variable {t : Table} {v : Slot} {r : Ref} {record : Record} {e : Error}

/-- Why a slot may not hold what it refers to. -/
inductive Misfit (t : Table) (v : Slot) : Error → Prop
  | missing {r : Ref} (refers : v.ref? = some r) (absent : t.find? r = none) :
      Misfit t v (dangling r)
  | mistyped {r : Ref} {record : Record} {kind : PayloadKind} (refers : v.ref? = some r)
      (found : t.find? r = some record) (requires : v.kind.required = some kind)
      (other : record.payload.kind ≠ kind) :
      Misfit t v (.wrongPayload kind record.payload.kind)

/-- What the slot refers to waits to be destroyed. -/
def Pends (t : Table) (v : Slot) : Prop :=
  ∃ r record, v.ref? = some r ∧ t.find? r = some record ∧ record.header.state = .pending

/-- What the slot refers to, if anything, is there, holds what the kind of the slot requires and
does not wait to be destroyed. -/
def Admits (t : Table) (v : Slot) : Prop :=
  ∀ r, v.ref? = some r → ∃ record, t.find? r = some record ∧
    (∀ kind ∈ v.kind.required, record.payload.kind = kind) ∧ record.header.state ≠ .pending

theorem Misfit.not_admits (h : t.Misfit v e) : ¬ t.Admits v := by
  intro admits
  cases h with
  | missing refers absent =>
    obtain ⟨record, found, _⟩ := admits _ refers
    cases absent.symm.trans found
  | mistyped refers found requires other =>
    obtain ⟨record, found', typed, _⟩ := admits _ refers
    cases found.symm.trans found'
    exact other (typed _ requires)

theorem not_pends_of_null (null : v.ref? = none) : ¬ t.Pends v := by
  rintro ⟨r, _, refers, _⟩
  cases null.symm.trans refers

theorem Pends.not_admits (h : t.Pends v) : ¬ t.Admits v := by
  intro admits
  obtain ⟨r, record, refers, found, pending⟩ := h
  obtain ⟨record', found', _, awake⟩ := admits r refers
  cases found.symm.trans found'
  exact awake pending

theorem admits_iff : t.Admits v ↔ (∀ e, ¬ t.Misfit v e) ∧ ¬ t.Pends v := by
  constructor
  · exact fun admits => ⟨fun e misfit => misfit.not_admits admits, fun h => h.not_admits admits⟩
  · rintro ⟨fits, awake⟩ r refers
    cases found : t.find? r with
    | none => exact absurd (.missing refers found) (fits _)
    | some record =>
      refine ⟨record, rfl, ?_, fun pending => awake ⟨r, record, refers, found, pending⟩⟩
      intro kind requires
      by_contra other
      exact fits _ (.mistyped refers found requires other)

end Table

namespace Act

variable {cx : Context} {v : Slot} {r : Ref} {record : Record} {e : Error}

theorem checkSlot_of_null (null : v.ref? = none) : checkSlot cx v = .ok () := by
  cases v with
  | object | str | text =>
    cases null
    rfl
  | byte | float | uint | int => rfl

theorem checkSlot_of_absent (refers : v.ref? = some r) (absent : cx.table.find? r = none) :
    checkSlot cx v = .error (Table.dangling r) := by
  cases v with
  | object | str | text =>
    cases refers
    simp only [checkSlot, Context.payload, Context.find, Table.find, absent]
    rfl
  | byte | float | uint | int => cases refers

theorem checkSlot_of_found (refers : v.ref? = some r) (found : cx.table.find? r = some record) :
    checkSlot cx v = v.kind.required.elim (.ok ()) fun kind =>
      if record.payload.kind = kind then .ok ()
      else .error (.wrongPayload kind record.payload.kind) := by
  obtain ⟨header, payload⟩ := record
  cases v with
  | object | str | text =>
    cases refers
    simp only [checkSlot, Context.payload, Context.find, Table.find, found]
    cases payload <;> rfl
  | byte | float | uint | int => cases refers

/-- A slot is turned away for one reason only: that it may not hold what it refers to. -/
theorem checkSlot_eq_error : checkSlot cx v = .error e ↔ cx.table.Misfit v e := by
  constructor
  · intro h
    cases refers : v.ref? with
    | none =>
      rw [checkSlot_of_null refers] at h
      cases h
    | some r =>
      cases found : cx.table.find? r with
      | none =>
        rw [checkSlot_of_absent refers found] at h
        cases h
        exact .missing refers found
      | some record =>
        rw [checkSlot_of_found refers found] at h
        cases requires : v.kind.required with
        | none =>
          rw [requires] at h
          cases h
        | some kind =>
          rw [requires, Option.elim_some] at h
          by_cases same : record.payload.kind = kind
          · rw [if_pos same] at h
            cases h
          · rw [if_neg same] at h
            cases h
            exact .mistyped refers found requires same
  · intro h
    cases h with
    | missing refers absent => exact checkSlot_of_absent refers absent
    | mistyped refers found requires other =>
      rw [checkSlot_of_found refers found, requires, Option.elim_some, if_neg other]

theorem checkSlot_eq_ok : checkSlot cx v = .ok () ↔ ∀ e, ¬ cx.table.Misfit v e := by
  cases h : checkSlot cx v with
  | ok => simp [← checkSlot_eq_error, h]
  | error e =>
    have misfit := checkSlot_eq_error.mp h
    simp only [reduceCtorEq, false_iff, not_forall, not_not]
    exact ⟨e, misfit⟩

end Act

namespace Table

variable {t : Table} {refs : List Ref} {r : Ref}

/-- Every record that is not static gets `n` of its reference added to its count. Nothing else
changes. -/
def recount (t : Table) (n : Ref → Nat) : Table :=
  { t with cells := t.cells.mapIdx fun i cell =>
      { cell with record := cell.record.map (Record.raised (n ⟨i, cell.generation⟩)) } }

theorem recount_zero (t : Table) : t.recount (fun _ => 0) = t := by
  have same : (Record.raised 0) = id := funext Record.raised_zero
  simp [recount, same, Array.mapIdx_eq_zipIdx_map]

theorem recount_recount (t : Table) (m n : Ref → Nat) :
    (t.recount m).recount n = t.recount fun x => m x + n x := by
  simp [recount, Function.comp_def, Record.raised_raised]

theorem raise_eq_recount (found : (t.find? r).isSome = true) :
    t.raise r = t.recount fun x => [r].count x := by
  obtain ⟨record, found⟩ := Option.isSome_iff_exists.mp found
  have cells : (t.raise r).cells = (t.recount fun x => [r].count x).cells := by
    apply Array.ext_getElem?
    intro i
    rw [raise, modifyAt, Array.getElem?_modify, recount, Array.getElem?_mapIdx]
    cases hcell : t.cells[i]? with
    | none => simp
    | some cell =>
      by_cases here : r.index = i
      · have generation : cell.generation = r.generation := by
          simpa [generation?, here, hcell] using (find?_eq_some.mp found).1
        have named : r = ⟨i, cell.generation⟩ := by rw [← here, generation]
        simp [here, ← named]
      · have other : r ≠ ⟨i, cell.generation⟩ := fun h => here (congrArg Ref.index h)
        have same : Record.raised 0 = id := funext Record.raised_zero
        simp [here, List.count_singleton, other, same]
  exact congrArg (fun cells => { t with cells }) cells

theorem raiseAll_eq_recount (found : ∀ r ∈ refs, (t.find? r).isSome = true) :
    t.raiseAll refs = t.recount fun x => refs.count x := by
  induction refs generalizing t with
  | nil => simp [recount_zero]
  | cons r refs ih =>
    obtain ⟨record, hrecord⟩ := Option.isSome_iff_exists.mp (found r List.mem_cons_self)
    have still : ∀ x ∈ refs, ((t.raise r).find? x).isSome = true := by
      intro x hx
      rw [find?_raise hrecord]
      split
      · rfl
      · exact found x (List.mem_cons_of_mem _ hx)
    rw [raiseAll_cons, ih still, raise_eq_recount (found r List.mem_cons_self), recount_recount]
    congr 1
    funext x
    rw [← List.count_append, List.singleton_append]

end Table

namespace Context

/-- The ways in which counting the references of slots can end. A slot that may not hold what it
refers to comes before one that refers to a record that waits to be destroyed, wherever they
stand. -/
inductive Retained (cx : Context) (slots : List Slot) : Except Error Unit → Context → Prop
  | counted (admits : ∀ v ∈ slots, cx.table.Admits v) :
      Retained cx slots (.ok ()) { cx with
        table := cx.table.recount fun x => slots.countP fun v => v.ref? = some x }
  | misfit {before after : List Slot} {v : Slot} {e : Error} (split : slots = before ++ v :: after)
      (fit : ∀ u ∈ before, ∀ e, ¬ cx.table.Misfit u e) (misfit : cx.table.Misfit v e) :
      Retained cx slots (.error e) cx
  | pending {before after : List Slot} {v : Slot} {r : Ref} {record : Record}
      (fit : ∀ u ∈ slots, ∀ e, ¬ cx.table.Misfit u e) (split : slots = before ++ v :: after)
      (awake : ∀ u ∈ before, ¬ cx.table.Pends u) (refers : v.ref? = some r)
      (found : cx.table.find? r = some record) (pending : record.header.state = .pending) :
      Retained cx slots (.error (.pendingResurrection r.index)) cx

variable {cx cx' : Context} {slots : List Slot} {outcome : Except Error Unit} {v : Slot} {r : Ref}

theorem Retained.eq_ok_iff (h : cx.Retained slots outcome cx') :
    outcome = .ok () ↔ ∀ v ∈ slots, cx.table.Admits v := by
  cases h with
  | counted admits => exact ⟨fun _ => admits, fun _ => rfl⟩
  | @misfit before after v e split _ misfit =>
    refine ⟨fun h => (nomatch h), fun admits => ?_⟩
    exact absurd (admits v (by simp [split])) misfit.not_admits
  | @pending before after v r record _ split _ refers found pending =>
    refine ⟨fun h => (nomatch h), fun admits => ?_⟩
    have pends : cx.table.Pends v := ⟨r, record, refers, found, pending⟩
    exact absurd (admits v (by simp [split])) pends.not_admits

theorem Sound.not_pends (sound : cx.Sound) (refers : v.ref? = some r)
    (can : cx.table.CanRaise r) : ¬ cx.table.Pends v := by
  rintro ⟨r', record', refers', found', pending⟩
  cases refers.symm.trans refers'
  obtain ⟨record, found, free⟩ := can
  cases found.symm.trans found'
  rcases free with static | awake
  · have state := (sound.proper r _ (Table.bare_of_find? found)).static.mpr static
    cases pending.symm.trans state
  · exact awake pending

end Context

namespace Act

variable {w : Workspace}

theorem forM_eq_ok {ε α : Type} {f : α → Except ε Unit} {l : List α} :
    l.forM f = .ok () ↔ ∀ a ∈ l, f a = .ok () := by
  induction l with
  | nil => simp [List.forM, Pure.pure, Except.pure]
  | cons a l ih =>
    rw [List.forM_eq_forM, List.forM_cons, bind_eq_ok, List.forall_mem_cons, ← ih]
    exact ⟨fun ⟨_, first, rest⟩ => ⟨first, rest⟩, fun ⟨first, rest⟩ => ⟨(), first, rest⟩⟩

theorem forM_eq_error {ε α : Type} {f : α → Except ε Unit} {l : List α} {e : ε}
    (h : l.forM f = .error e) :
    ∃ before a after, l = before ++ a :: after ∧ (∀ b ∈ before, f b = .ok ()) ∧ f a = .error e := by
  induction l with
  | nil => cases h
  | cons a l ih =>
    cases ha : f a with
    | error e' =>
      rw [List.forM_eq_forM, List.forM_cons, ha] at h
      cases h
      exact ⟨[], a, l, rfl, by simp, ha⟩
    | ok =>
      rw [List.forM_eq_forM, List.forM_cons, ha] at h
      obtain ⟨before, b, after, rfl, passed, failed⟩ := ih h
      refine ⟨a :: before, b, after, rfl, ?_, failed⟩
      exact List.forall_mem_cons.mpr ⟨ha, passed⟩

theorem ends_retained (slots : List Slot) (sound : w.context.Sound) :
    (retain slots).Ends w (w.context.Retained slots) := by
  apply ends_retain_exact
  · intro e failed
    obtain ⟨before, v, after, split, passed, failed⟩ := forM_eq_error failed
    exact .misfit split (fun u hu => checkSlot_eq_ok.mp (passed u hu))
      (checkSlot_eq_error.mp failed)
  · intro e before r after checked split can declines
    have fit : ∀ u ∈ slots, ∀ e, ¬ w.context.table.Misfit u e :=
      fun u hu => checkSlot_eq_ok.mp (forM_eq_ok.mp checked u hu)
    -- the reference that declines belongs to a slot, after slots that have been counted or are null
    obtain ⟨counted, rest, rfl, hcounted, hrest⟩ := List.filterMap_eq_append_iff.mp split
    obtain ⟨null, v, tail, rfl, hnull, refers, _⟩ := List.filterMap_eq_cons_iff.mp hrest
    cases declines with
    | dangling absent => exact absurd (.missing refers absent) (fit v (by simp) _)
    | pending found _ pending =>
      refine .pending fit (List.append_assoc _ _ _).symm ?_ refers found pending
      intro u hu
      rcases List.mem_append.mp hu with hu | hu
      · cases hr : u.ref? with
        | none => exact Table.not_pends_of_null hr
        | some x =>
          refine sound.not_pends hr (can x ?_)
          rw [← hcounted]
          exact List.mem_filterMap.mpr ⟨u, hu, hr⟩
      · exact Table.not_pends_of_null (hnull u hu)
  · intro checked can
    have found : ∀ r ∈ slots.filterMap Slot.ref?, (w.context.table.find? r).isSome = true :=
      fun r hr => (can r hr).isSome
    have counts : (fun x => (slots.filterMap Slot.ref?).count x) =
        fun x => slots.countP fun v => v.ref? = some x := by
      funext x
      simp [List.count_filterMap, beq_eq_decide]
    rw [Table.raiseAll_eq_recount found, counts]
    refine .counted fun v hv => Table.admits_iff.mpr ⟨?_, ?_⟩
    · exact checkSlot_eq_ok.mp (forM_eq_ok.mp checked v hv)
    cases hr : v.ref? with
    | none => exact Table.not_pends_of_null hr
    | some x => exact sound.not_pends hr (can x (List.mem_filterMap.mpr ⟨v, hv, hr⟩))

end Act

namespace Context

/-- Counting the references of slots is all or nothing, from every context that a program leads
to: it succeeds just if every slot is admitted, with every record counted as often as it is referred
to, and otherwise nothing has changed. -/
theorem Reached.all_or_nothing {cx : Context} (reached : cx.Reached) (slots : List Slot)
    (journal : List Notice) (grants : Grants) :
    (Act.retain slots).Ends ⟨cx, journal, grants⟩ fun outcome cx' =>
      cx.Retained slots outcome cx' ∧ (outcome = .ok () ↔ ∀ v ∈ slots, cx.table.Admits v) := by
  apply (Act.ends_retained slots reached.sound).mono
  exact fun outcome cx' retained => ⟨retained, retained.eq_ok_iff⟩

/-- Two strings are made, and the second is given up in a deeper scope, so that it waits. -/
def parted : Context :=
  ((Machine.start {} .ample [.update (.newStr [1]) .strict none, .update (.newStr [2]) .strict none,
    .update .pushScope .strict none,
    .update (.decrement .heap false (.ref ⟨3, 0⟩)) .strict none]).steps 8).context

theorem all_or_nothing_parted : parted.Reached ∧
    (Act.retain [.object (some ⟨2, 0⟩), .object none, .text (some ⟨1, 0⟩), .int 5,
      .str (some ⟨2, 0⟩)]).Ends ⟨parted, [], .ample⟩ (fun outcome cx =>
        outcome = .ok () ∧ cx.table.count ⟨2, 0⟩ = 3 ∧ cx.table.count ⟨1, 0⟩ = 1) ∧
    (Act.retain [.str (some ⟨2, 0⟩), .object (some ⟨3, 0⟩)]).Ends ⟨parted, [], .ample⟩
      fun outcome cx => outcome ≠ .ok () ∧ cx = parted := by
  have reached : parted.Reached := ⟨_, (Machine.Reachable.start _ _ _).steps 8, rfl⟩
  refine ⟨reached, (reached.all_or_nothing _ _ _).mono ?_, (reached.all_or_nothing _ _ _).mono ?_⟩
  · rintro outcome cx ⟨retained, succeeds⟩
    have admitted : outcome = .ok () := by
      apply succeeds.mpr
      simp only [List.forall_mem_cons, Table.Admits]
      refine ⟨?_, ?_, ?_, ?_, ?_, by simp⟩
      · rintro _ ⟨⟩
        exact ⟨_, rfl, by decide, by decide⟩
      · rintro _ ⟨⟩
      · rintro _ ⟨⟩
        exact ⟨_, rfl, by decide, by decide⟩
      · rintro _ ⟨⟩
      · rintro _ ⟨⟩
        exact ⟨_, rfl, by decide, by decide⟩
    cases retained with
    | counted => exact ⟨rfl, rfl, rfl⟩
    | misfit | pending => cases admitted
  · rintro outcome cx ⟨retained, succeeds⟩
    have pends : parted.table.Pends (.object (some ⟨3, 0⟩)) := ⟨_, _, rfl, rfl, rfl⟩
    cases retained with
    | counted admits => exact absurd (admits _ (by simp)) pends.not_admits
    | misfit | pending => exact ⟨fun h => (nomatch h), rfl⟩

end Context

end ScopedHeap
