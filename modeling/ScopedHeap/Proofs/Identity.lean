import ScopedHeap.Proofs.Lookup
import ScopedHeap.Proofs.Solvency

/-!
# Looking objects up

Generic objects are compared by name and then by content, and two different objects that are neither
both byte strings nor both texts cannot be compared at all. A search for an object that is stored in
a list therefore may fail before it comes to that object. It goes from the front and ends at the
first slot that is like the object, or at the first one that is a stranger to it, whichever comes
first (`Table.identifies_of_stored`). It never fails in another way, and never says that the object
is not there.
-/
namespace ScopedHeap

open Context

namespace Table

variable {t : Table} {r : Ref} {o : Option Ref} {l : SlotList} {v : Slot} {e : Error}

/-- The slot refers to `r`, or to a record that holds the same byte string or text. -/
def Likens (t : Table) (r : Ref) (v : Slot) : Prop :=
  ∃ s, v.ref? = some s ∧
    (s = r ∨ ∃ p : Payload, p.Legible ∧ t.payload? s = some p ∧ t.payload? r = some p)

/-- The slot refers to another record than `r`, and it is not so that both hold byte strings or that
both hold texts. -/
def Estranges (t : Table) (r : Ref) (v : Slot) : Prop :=
  ∃ s, v.ref? = some s ∧ s ≠ r ∧ ∀ p q : Payload, t.payload? s = some p → t.payload? r = some q →
    ¬ (p.Legible ∧ q.kind = p.kind)

/-- Where a list has something like the object `r`. -/
def likenesses (t : Table) (l : SlotList) (r : Ref) : Set Nat :=
  {i | ∃ u, l.items[i]? = some u ∧ t.Likens r u}

/-- Where a list has something that cannot be compared with the object `r`. -/
def strangers (t : Table) (l : SlotList) (r : Ref) : Set Nat :=
  {i | ∃ u, l.items[i]? = some u ∧ t.Estranges r u}

/-- The outcome of a search for the object `r`: the first slot like it, or an error if a stranger
comes before. -/
structure Identifies (t : Table) (l : SlotList) (r : Ref) : Prop where
  found : ∀ i, t.search l (.object (some r)) = .ok (some i) ↔
    IsLeast (t.likenesses l r) i ∧ ∀ j ∈ t.strangers l r, i < j
  failed : ∀ e, t.search l (.object (some r)) = .error e ↔
    e = .comparisonNotImplemented .object ∧
      ∃ j ∈ t.strangers l r, ∀ i ∈ t.likenesses l r, j < i
  present : t.search l (.object (some r)) ≠ .ok none

theorem contentEq_object_eq_error {p q : Payload} : contentEq .object p q = .error e ↔
    e = .comparisonNotImplemented .object ∧ ¬ (p.Legible ∧ q.kind = p.kind) := by
  cases p <;> cases q <;> simp [contentEq, Payload.Legible, Payload.kind, eq_comm]

theorem slotEq_object_eq_true :
    t.slotEq (.object o) (.object (some r)) = .ok true ↔ t.Likens r (.object o) := by
  have reads : ∀ p : Payload, SlotKind.object.reads p.kind = true ↔ p.Legible := by
    intro p
    simp [SlotKind.reads, Payload.Legible]
  show t.refEq .object o (some r) = .ok true ↔ ∃ s, o = some s ∧ _
  rw [refEq_eq_ok, refCompares_true]
  cases o with
  | none => simp
  | some s => simp [reads]

theorem slotEq_object_eq_error (known : (t.find? r).isSome = true)
    (there : ∀ s, o = some s → (t.find? s).isSome = true) :
    t.slotEq (.object o) (.object (some r)) = .error e ↔
      e = .comparisonNotImplemented .object ∧ t.Estranges r (.object o) := by
  show t.refEq .object o (some r) = .error e ↔ _ ∧ ∃ s, o = some s ∧ _
  cases o with
  | none => simp [refEq]
  | some s =>
    obtain ⟨right, hright⟩ := Option.isSome_iff_exists.mp known
    obtain ⟨left, hleft⟩ := Option.isSome_iff_exists.mp (there s rfl)
    by_cases same : s = r
    · simp [refEq, same]
    · have compared : t.refEq .object (some s) (some r) =
          contentEq .object left.payload right.payload := by
        rw [refEq, if_neg same, find_eq_ok_iff.mpr hleft, find_eq_ok_iff.mpr hright]
        rfl
      rw [compared, contentEq_object_eq_error]
      simp [same, payload?_of_find? hleft, payload?_of_find? hright]

/-- Comparing the slot with the object `r` says whether it is like the object, or a stranger. -/
structure Judges (t : Table) (r : Ref) (u : Slot) : Prop where
  alike : t.slotEq u (.object (some r)) = .ok true ↔ t.Likens r u
  strange : ∀ e, t.slotEq u (.object (some r)) = .error e ↔
    e = .comparisonNotImplemented .object ∧ t.Estranges r u

theorem judges_object (known : (t.find? r).isSome = true)
    (there : ∀ s, o = some s → (t.find? s).isSome = true) : t.Judges r (.object o) :=
  ⟨slotEq_object_eq_true, fun _ => slotEq_object_eq_error known there⟩

theorem Judges.apart (h : t.Judges r v) (likens : t.Likens r v) : ¬ t.Estranges r v := by
  intro stranger
  cases (h.alike.mpr likens).symm.trans ((h.strange _).mpr ⟨rfl, stranger⟩)

theorem Judges.passed (h : t.Judges r v) :
    t.slotEq v (.object (some r)) = .ok false ↔ ¬ t.Likens r v ∧ ¬ t.Estranges r v := by
  rw [← h.alike]
  cases same : t.slotEq v (.object (some r)) with
  | error e => simp [((h.strange e).mp same).2]
  | ok x =>
    have friend : ¬ t.Estranges r v := by
      intro stranger
      cases same.symm.trans ((h.strange _).mpr ⟨rfl, stranger⟩)
    cases x <;> simp [friend]

section Scanning

variable {i : Nat} (judges : ∀ u ∈ l.items, t.Judges r u)
include judges

theorem notMem_strangers (like : i ∈ t.likenesses l r) : i ∉ t.strangers l r := by
  obtain ⟨u, hu, likens⟩ := like
  rintro ⟨w, hw, stranger⟩
  cases hu.symm.trans hw
  exact (judges u (List.mem_of_getElem? hu)).apart likens stranger

theorem skips_iff :
    (∀ j < i, ∀ u, l.items[j]? = some u → t.slotEq u (.object (some r)) = .ok false) ↔
      ∀ j < i, j ∉ t.likenesses l r ∧ j ∉ t.strangers l r := by
  constructor
  · intro before j lt
    constructor
    · rintro ⟨u, hu, likens⟩
      exact ((judges u (List.mem_of_getElem? hu)).passed.mp (before j lt u hu)).1 likens
    · rintro ⟨u, hu, stranger⟩
      exact ((judges u (List.mem_of_getElem? hu)).passed.mp (before j lt u hu)).2 stranger
  · intro before j lt u hu
    exact (judges u (List.mem_of_getElem? hu)).passed.mpr
      ⟨fun likens => (before j lt).1 ⟨u, hu, likens⟩,
        fun stranger => (before j lt).2 ⟨u, hu, stranger⟩⟩

theorem scan_object_eq_some : t.scan (.object (some r)) l.items = .ok (some i) ↔
    IsLeast (t.likenesses l r) i ∧ ∀ j ∈ t.strangers l r, i < j := by
  rw [scan_eq_some, skips_iff judges]
  constructor
  · rintro ⟨⟨u, hu, same⟩, before⟩
    have like : i ∈ t.likenesses l r :=
      ⟨u, hu, (judges u (List.mem_of_getElem? hu)).alike.mp same⟩
    refine ⟨⟨like, fun j hj => ?_⟩, fun j hj => ?_⟩
    · exact Nat.le_of_not_lt fun lt => (before j lt).1 hj
    · have ne : i ≠ j := by
        rintro rfl
        exact notMem_strangers judges like hj
      have le : i ≤ j := Nat.le_of_not_lt fun lt => (before j lt).2 hj
      exact Nat.lt_of_le_of_ne le ne
  · rintro ⟨⟨⟨u, hu, likens⟩, least⟩, barred⟩
    refine ⟨⟨u, hu, (judges u (List.mem_of_getElem? hu)).alike.mpr likens⟩, fun j lt => ⟨?_, ?_⟩⟩
    · exact fun like => absurd (least like) (Nat.not_le_of_lt lt)
    · exact fun stranger => absurd (barred j stranger) (Nat.lt_asymm lt)

theorem scan_object_eq_error : t.scan (.object (some r)) l.items = .error e ↔
    e = .comparisonNotImplemented .object ∧
      ∃ j ∈ t.strangers l r, ∀ i ∈ t.likenesses l r, j < i := by
  simp only [scan_eq_error, skips_iff judges]
  constructor
  · rintro ⟨j, u, hu, failed, before⟩
    obtain ⟨rfl, stranger⟩ := ((judges u (List.mem_of_getElem? hu)).strange e).mp failed
    refine ⟨rfl, j, ⟨u, hu, stranger⟩, fun i hi => ?_⟩
    have ne : j ≠ i := by
      rintro rfl
      exact notMem_strangers judges hi ⟨u, hu, stranger⟩
    have le : j ≤ i := Nat.le_of_not_lt fun lt => (before i lt).1 hi
    exact Nat.lt_of_le_of_ne le ne
  · rintro ⟨rfl, j, stranger, front⟩
    -- the search does not get past the first stranger
    obtain ⟨i, ⟨u, hu, first⟩, least⟩ : ∃ i, IsLeast (t.strangers l r) i := by
      classical exact ⟨_, Nat.isLeast_find ⟨j, stranger⟩⟩
    have le := least stranger
    refine ⟨i, u, hu, ((judges u (List.mem_of_getElem? hu)).strange _).mpr ⟨rfl, first⟩,
      fun k lt => ⟨fun like => ?_, fun other => ?_⟩⟩
    · have behind := front k like
      omega
    · exact absurd (least other) (Nat.not_le_of_lt lt)

end Scanning

/-- A search for an object that is stored finds it or something like it, unless it meets a stranger
first. -/
theorem identifies_of_stored (kind : l.kind = .object) (kinds : ∀ u ∈ l.items, u.kind = l.kind)
    (there : ∀ u ∈ l.items, ∀ s, u.ref? = some s → (t.find? s).isSome = true)
    (stored : .object (some r) ∈ l.items) : t.Identifies l r := by
  have judges : ∀ u ∈ l.items, t.Judges r u := by
    intro u hu
    have object := (kinds u hu).trans kind
    cases u with
    | object o => exact judges_object (there _ stored r rfl) fun s hs => there _ hu s hs
    | str | text | byte | float | uint | int => cases object
  have searched : t.search l (.object (some r)) = t.scan (.object (some r)) l.items :=
    search_of_kind kind.symm
  refine ⟨?_, ?_, ?_⟩
  · rw [searched]
    exact fun _ => scan_object_eq_some judges
  · rw [searched]
    exact fun _ => scan_object_eq_error judges
  · rw [searched]
    intro missing
    have unequal := scan_eq_none.mp missing _ stored
    rw [slotEq_object_eq_true.mpr ⟨r, rfl, Or.inl rfl⟩] at unequal
    cases unequal

end Table

/-- Every question that looks for a slot in a list of the record is answered by a search. -/
structure Context.Consults (cx : Context) (x : Ref) (p : Payload) (l : SlotList) (v : Slot) :
    Prop where
  list : p = .list l →
    cx.answer (.listFind x v) = (cx.table.search l v).map .position ∧
    cx.answer (.listContains x v) = (cx.table.search l v).map fun o => .flag o.isSome
  set : p = .set ⟨l⟩ →
    cx.answer (.setContains x v) = (cx.table.search l v).map fun o => .flag o.isSome
  keys : ∀ d, p = .dict d → l = d.keys →
    cx.answer (.dictFindKey x v) = (cx.table.search l v).map .position ∧
    cx.answer (.dictContainsKey x v) = (cx.table.search l v).map fun o => .flag o.isSome
  values : ∀ d, p = .dict d → l = d.values →
    cx.answer (.dictContainsValue x v) = (cx.table.search l v).map fun o => .flag o.isSome

theorem Context.consults {cx : Context} {x : Ref} {p : Payload}
    (stored : cx.table.payload? x = some p) (l : SlotList) (v : Slot) : cx.Consults x p l v := by
  have payload := payload_of_payload? stored
  constructor
  · rintro rfl
    simp only [Context.answer, listFind, Context.list, payload]
    exact ⟨rfl, rfl⟩
  · rintro rfl
    simp only [Context.answer, setFind, Context.set, payload]
    rfl
  · rintro d rfl rfl
    simp only [Context.answer, dictFindKey, Context.dict, payload]
    exact ⟨rfl, rfl⟩
  · rintro d rfl rfl
    simp only [Context.answer, dictFindValue, Context.dict, payload]
    rfl

namespace Books

variable {b : Books}

/-- As long as the client gives up no count that it does not hold, looking for an object that is
stored in a list of generic slots has one of two outcomes. If a slot like the object comes before
all strangers, the first such slot is found. Otherwise the search fails, because there is no
comparison with a stranger. -/
theorem Run.stored_lookup (run : b.Run Solvent) {x r : Ref} {record : Record} {l : SlotList}
    (found : b.machine.context.table.find? x = some record) (mem : l ∈ record.payload.lists)
    (kind : l.kind = .object) (stored : .object (some r) ∈ l.items) :
    b.machine.context.table.Identifies l r ∧
      b.machine.context.Consults x record.payload l (.object (some r)) := by
  have held := Table.payload?_of_find? found
  obtain ⟨origins, fits⟩ := run.reachable.fits
  have there : ∀ u ∈ l.items, ∀ s, u.ref? = some s →
      (b.machine.context.table.find? s).isSome = true := by
    intro u hu s hs
    have holds : b.machine.context.Holds u := ⟨x, _, held, Payload.mem_slots mem hu⟩
    have pos := holds.slotCount_pos hs
    exact run.funded.isSome (by omega)
  exact ⟨Table.identifies_of_stored kind (fits x _ held l mem).kinds there stored,
    b.machine.context.consults held l _⟩

/-- A list of two strings and a record of raw bytes. The first string gets the bytes of the second
one by hand, after it has been stored. -/
def company : Books where
  machine := .start {} .ample [.update (.newStr [1]) .strict none,
    .update (.newStr [7]) .strict none, .update (.allocate 72 false) .strict none,
    .update (.newList .object [.object (.ref ⟨2, 0⟩), .object .null, .object (.ref ⟨3, 0⟩),
      .object (.ref ⟨4, 0⟩)]) .strict none,
    .update (.setPayload (.ref ⟨2, 0⟩) (.str [7])) .strict none]
  owned := fun _ => 0

/-- The second string is found where the first one is. The search for the raw bytes fails, although
they are stored too. -/
theorem stored_lookup_company : ∃ l, (company.steps 10).machine.context.list ⟨5, 0⟩ = .ok l ∧
    IsLeast ((company.steps 10).machine.context.table.likenesses l ⟨3, 0⟩) 0 ∧
    (company.steps 10).machine.context.answer (.listFind ⟨5, 0⟩ (.object (some ⟨3, 0⟩))) =
      .ok (.position (some 0)) ∧
    (∃ j ∈ (company.steps 10).machine.context.table.strangers l ⟨4, 0⟩,
      ∀ i ∈ (company.steps 10).machine.context.table.likenesses l ⟨4, 0⟩, j < i) ∧
    (company.steps 10).machine.context.answer (.listFind ⟨5, 0⟩ (.object (some ⟨4, 0⟩))) =
      .error (.comparisonNotImplemented .object) := by
  have run : (company.steps 10).Run Solvent := (Run.start _ _ _).steps 10 (by decide)
  obtain ⟨string, asked⟩ := run.stored_lookup (x := ⟨5, 0⟩) (r := ⟨3, 0⟩) rfl
    List.mem_cons_self rfl (by decide)
  obtain ⟨raw, refused⟩ := run.stored_lookup (x := ⟨5, 0⟩) (r := ⟨4, 0⟩) rfl
    List.mem_cons_self rfl (by decide)
  exact ⟨_, rfl, ((string.found 0).mp rfl).1, (asked.list rfl).1, ((raw.failed _).mp rfl).2,
    (refused.list rfl).1⟩

/-- A list of two records of raw bytes. -/
def crowd : Books where
  machine := .start {} .ample [.update (.allocate 72 false) .strict none,
    .update (.allocate 72 false) .strict none,
    .update (.newList .object [.object (.ref ⟨2, 0⟩), .object (.ref ⟨3, 0⟩)]) .strict none]
  owned := fun _ => 0

/-- Being stored is not enough for an object to be found. -/
theorem not_stored_found : ¬ ∀ b : Books, b.Run Solvent → ∀ x r l,
    b.machine.context.list x = .ok l → l.kind = .object → .object (some r) ∈ l.items →
    ∃ i, b.machine.context.answer (.listFind x (.object (some r))) = .ok (.position (some i)) := by
  intro always
  have run : (crowd.steps 6).Run Solvent := (Run.start _ _ _).steps 6 (by decide)
  obtain ⟨i, found⟩ := always (crowd.steps 6) run ⟨4, 0⟩ ⟨3, 0⟩ _ rfl rfl (by decide)
  have refused : (crowd.steps 6).machine.context.answer
      (.listFind ⟨4, 0⟩ (.object (some ⟨3, 0⟩))) = .error (.comparisonNotImplemented .object) := rfl
  cases refused.symm.trans found

end Books

end ScopedHeap
