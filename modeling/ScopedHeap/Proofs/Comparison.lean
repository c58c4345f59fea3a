import ScopedHeap.Proofs.Binary64
import ScopedHeap.Proofs.Contents

/-!
# Comparing slots

When a comparison of two slots has an answer, and which one it is (`Table.slotEq_eq_ok`). Equality
is reflexive but for NaN, symmetric and transitive, and an answer depends on nothing but the byte
strings and texts of the records that the slots refer to (`Table.slotEq_congr`). A search answers
with the first slot that is equal to the one looked for, provided that every comparison up to it has
an answer (`Table.scan_eq_some`).
-/
namespace ScopedHeap

/-- Slots of a kind can be compared by what records of these contents hold. -/
def SlotKind.reads : SlotKind → PayloadKind → Bool
  | .str, content => content = .str
  | .text, content => content = .text
  | _, content => content = .str ∨ content = .text

/-- What comparisons look at: byte strings and texts. -/
def Payload.Legible (p : Payload) : Prop := p.kind = .str ∨ p.kind = .text

theorem SlotKind.legible_of_reads {kind : SlotKind} {p : Payload}
    (h : kind.reads p.kind = true) : p.Legible := by
  cases kind <;> simp_all [reads, Payload.Legible]

namespace Table

variable {t u : Table} {kind : SlotKind} {a b c v : Slot} {x : Bool}

theorem contentEq_eq_ok {p q : Payload} : contentEq kind p q = .ok x ↔
    kind.reads p.kind = true ∧ q.kind = p.kind ∧ x = decide (p = q) := by
  constructor
  · intro h
    cases kind <;> cases p <;> cases q <;> cases h <;>
      simp [SlotKind.reads, Payload.kind, beq_eq_decide]
  · rintro ⟨reads, same, rfl⟩
    cases kind <;> cases p <;> cases reads <;> cases q <;> cases same <;>
      simp [contentEq, beq_eq_decide]

/-- When two nullable references are compared with an answer. -/
inductive RefCompares (t : Table) (kind : SlotKind) : Option Ref → Option Ref → Bool → Prop
  | null : RefCompares t kind none none true
  | same (r : Ref) : RefCompares t kind (some r) (some r) true
  | left (r : Ref) : RefCompares t kind (some r) none false
  | right (r : Ref) : RefCompares t kind none (some r) false
  | content {r s : Ref} {p q : Payload} (distinct : r ≠ s) (left : t.payload? r = some p)
      (right : t.payload? s = some q) (reads : kind.reads p.kind = true) (same : q.kind = p.kind) :
      RefCompares t kind (some r) (some s) (decide (p = q))

theorem refEq_eq_ok {r s : Option Ref} : t.refEq kind r s = .ok x ↔ t.RefCompares kind r s x := by
  constructor
  · intro h
    cases r with
    | none =>
      cases s with
      | none =>
        cases h
        exact .null
      | some s =>
        cases h
        exact .right s
    | some r =>
      cases s with
      | none =>
        cases h
        exact .left r
      | some s =>
        rw [refEq] at h
        by_cases e : r = s
        · rw [if_pos e] at h
          cases h
          rw [e]
          exact .same s
        · rw [if_neg e] at h
          obtain ⟨left, hleft, h⟩ := bind_eq_ok.mp h
          obtain ⟨right, hright, h⟩ := bind_eq_ok.mp h
          obtain ⟨reads, same, rfl⟩ := contentEq_eq_ok.mp h
          exact .content e (payload?_of_find? (find_eq_ok_iff.mp hleft))
            (payload?_of_find? (find_eq_ok_iff.mp hright)) reads same
  · intro h
    cases h with
    | null | left | right => rfl
    | same r => exact if_pos rfl
    | content distinct left right reads same =>
      obtain ⟨first, hfirst, rfl⟩ := payload?_eq_some.mp left
      obtain ⟨second, hsecond, rfl⟩ := payload?_eq_some.mp right
      rw [refEq, if_neg distinct]
      exact bind_eq_ok.mpr ⟨first, find_eq_ok_iff.mpr hfirst, bind_eq_ok.mpr
        ⟨second, find_eq_ok_iff.mpr hsecond, contentEq_eq_ok.mpr ⟨reads, same, rfl⟩⟩⟩

/-- When two slots are compared with an answer. -/
inductive Compares (t : Table) : Slot → Slot → Bool → Prop
  | byte (x y : UInt8) : Compares t (.byte x) (.byte y) (x == y)
  | float (x y : Binary64) : Compares t (.float x) (.float y) (x.numEq y)
  | uint (x y : UInt64) : Compares t (.uint x) (.uint y) (x == y)
  | int (x y : Int64) : Compares t (.int x) (.int y) (x == y)
  | refs {a b : Slot} {x : Bool} (isRef : a.kind.isRef = true) (kind : b.kind = a.kind)
      (refs : t.RefCompares a.kind a.ref? b.ref? x) : Compares t a b x

theorem slotEq_of_isRef (isRef : a.kind.isRef = true) (kind : b.kind = a.kind) :
    t.slotEq a b = t.refEq a.kind a.ref? b.ref? := by
  cases a with
  | object | str | text => cases b <;> first | rfl | cases kind
  | byte | float | uint | int => cases isRef

theorem slotEq_eq_ok : t.slotEq a b = .ok x ↔ t.Compares a b x := by
  constructor
  · intro h
    cases a with
    | byte | float | uint | int =>
      cases b <;> cases h
      constructor
    | object | str | text =>
      cases b <;> first | exact .refs rfl rfl (refEq_eq_ok.mp h) | cases h
  · intro h
    cases h with
    | byte | float | uint | int => rfl
    | refs isRef kind refs =>
      rw [slotEq_of_isRef isRef kind]
      exact refEq_eq_ok.mpr refs

theorem slotEq_self (number : ∀ x, a = .float x → x.isNaN = false) : t.slotEq a a = .ok true := by
  cases a with
  | byte b => exact congrArg Except.ok (beq_self_eq_true b)
  | uint n => exact congrArg Except.ok (beq_self_eq_true n)
  | int i => exact congrArg Except.ok (beq_self_eq_true i)
  | float x =>
    rw [slotEq, Binary64.numEq_self (number x rfl)]
  | object r | str r | text r =>
    rw [slotEq_of_isRef rfl rfl, refEq_eq_ok]
    cases r with
    | none => exact .null
    | some r => exact .same r

theorem RefCompares.symm {r s : Option Ref} (h : t.RefCompares kind r s x) :
    t.RefCompares kind s r x := by
  cases h with
  | null => exact .null
  | same r => exact .same r
  | left r => exact .right r
  | right r => exact .left r
  | @content r s p q distinct left right reads same =>
    rw [decide_eq_decide.mpr (eq_comm (a := p) (b := q))]
    exact .content (Ne.symm distinct) right left (same ▸ reads) same.symm

theorem slotEq_symm (h : t.slotEq a b = .ok x) : t.slotEq b a = .ok x := by
  rw [slotEq_eq_ok] at h ⊢
  cases h with
  | byte x y =>
    rw [BEq.comm]
    exact .byte y x
  | uint x y =>
    rw [BEq.comm]
    exact .uint y x
  | int x y =>
    rw [BEq.comm]
    exact .int y x
  | float x y =>
    rw [Binary64.numEq_comm]
    exact .float y x
  | refs isRef kind refs => exact .refs (kind ▸ isRef) kind.symm (kind ▸ refs.symm)

theorem refCompares_true {r s : Option Ref} : t.RefCompares kind r s true ↔ r = s ∨
    ∃ p, kind.reads p.kind = true ∧ r.bind t.payload? = some p ∧ s.bind t.payload? = some p := by
  constructor
  · have yes : ∀ x, t.RefCompares kind r s x → x = true → r = s ∨ ∃ p, kind.reads p.kind = true ∧
        r.bind t.payload? = some p ∧ s.bind t.payload? = some p := by
      intro x h hx
      cases h with
      | null | same => exact Or.inl rfl
      | left | right => cases hx
      | content distinct left right reads same =>
        rw [of_decide_eq_true hx] at reads left
        exact Or.inr ⟨_, reads, left, right⟩
    exact fun h => yes true h rfl
  · rintro (rfl | ⟨p, reads, left, right⟩)
    · cases r with
      | none => exact .null
      | some r => exact .same r
    · obtain ⟨r, rfl, left⟩ := Option.bind_eq_some_iff.mp left
      obtain ⟨s, rfl, right⟩ := Option.bind_eq_some_iff.mp right
      by_cases e : r = s
      · rw [e]
        exact .same s
      · have h := RefCompares.content e left right reads rfl
        rwa [decide_eq_true rfl] at h

theorem RefCompares.trans {r s o : Option Ref} (h : t.RefCompares kind r s true)
    (k : t.RefCompares kind s o true) : t.RefCompares kind r o true := by
  rw [refCompares_true] at h k ⊢
  rcases h with rfl | ⟨p, reads, left, right⟩
  · exact k
  · rcases k with rfl | ⟨q, _, left', right'⟩
    · exact Or.inr ⟨p, reads, left, right⟩
    · cases right.symm.trans left'
      exact Or.inr ⟨p, reads, left, right'⟩

theorem Compares.kind_eq (h : t.Compares a b x) : b.kind = a.kind := by
  cases h with
  | byte | float | uint | int => rfl
  | refs _ kind _ => exact kind

theorem slotEq_trans (h : t.slotEq a b = .ok true) (k : t.slotEq b c = .ok true) :
    t.slotEq a c = .ok true := by
  have hk := (slotEq_eq_ok.mp h).kind_eq
  have kk := (slotEq_eq_ok.mp k).kind_eq
  cases isRef : a.kind.isRef with
  | true =>
    rw [slotEq_of_isRef isRef hk, refEq_eq_ok] at h
    rw [slotEq_of_isRef (hk ▸ isRef) kk, refEq_eq_ok, hk] at k
    rw [slotEq_of_isRef isRef (kk.trans hk), refEq_eq_ok]
    exact h.trans k
  | false =>
    cases a with
    | object | str | text => cases isRef
    | byte | uint | int =>
      cases b <;> cases hk
      cases c <;> cases kk
      simp_all [slotEq]
    | float =>
      cases b <;> cases hk
      cases c <;> cases kk
      exact congrArg Except.ok (Binary64.numEq_trans (Except.ok.inj h) (Except.ok.inj k))

/-- A comparison that has an answer has the same one wherever the records that the slots refer to
hold the same byte strings and texts. -/
theorem slotEq_congr (h : t.slotEq a b = .ok x)
    (keeps : ∀ r, a.ref? = some r ∨ b.ref? = some r → ∀ p, t.payload? r = some p → p.Legible →
      u.payload? r = some p) : u.slotEq a b = .ok x := by
  rw [slotEq_eq_ok] at h ⊢
  cases h with
  | byte => exact .byte _ _
  | float => exact .float _ _
  | uint => exact .uint _ _
  | int => exact .int _ _
  | refs isRef kind refs =>
    refine .refs isRef kind ?_
    generalize ha : a.ref? = r at refs
    generalize hb : b.ref? = s at refs
    cases refs with
    | null => exact .null
    | same r => exact .same r
    | left r => exact .left r
    | right r => exact .right r
    | content distinct left right reads same =>
      have reads' := reads
      rw [← same] at reads'
      exact .content distinct (keeps _ (Or.inl ha) _ left (SlotKind.legible_of_reads reads))
        (keeps _ (Or.inr hb) _ right (SlotKind.legible_of_reads reads')) reads same

section

variable {item : Slot} {items : List Slot}

theorem scan_cons_of_error {e : Error} (failed : t.slotEq item v = .error e) :
    t.scan v (item :: items) = .error e := by
  rw [scan, failed]
  rfl

theorem scan_cons_of_true (same : t.slotEq item v = .ok true) :
    t.scan v (item :: items) = .ok (some 0) := by
  rw [scan, same]
  rfl

theorem scan_cons_of_false (other : t.slotEq item v = .ok false) :
    t.scan v (item :: items) = (t.scan v items).map (Option.map (· + 1)) := by
  rw [scan, other]
  cases t.scan v items <;> rfl

theorem scan_eq_none : t.scan v items = .ok none ↔ ∀ u ∈ items, t.slotEq u v = .ok false := by
  induction items with
  | nil => simp [scan]
  | cons item items ih =>
    rw [List.forall_mem_cons, ← ih]
    cases same : t.slotEq item v with
    | error e => simp [scan_cons_of_error same]
    | ok x =>
      cases x with
      | true => simp [scan_cons_of_true same]
      | false =>
        rw [scan_cons_of_false same]
        cases t.scan v items <;> simp [Except.map]

theorem forall_before_cons {i : Nat} :
    (∀ j < i + 1, ∀ u, (item :: items)[j]? = some u → t.slotEq u v = .ok false) ↔
      t.slotEq item v = .ok false ∧
        ∀ j < i, ∀ u, items[j]? = some u → t.slotEq u v = .ok false := by
  rw [Nat.forall_lt_succ_left]
  simp

/-- A search answers with the first slot that is equal to the one looked for. -/
theorem scan_eq_some {i : Nat} : t.scan v items = .ok (some i) ↔
    (∃ u, items[i]? = some u ∧ t.slotEq u v = .ok true) ∧
      ∀ j < i, ∀ u, items[j]? = some u → t.slotEq u v = .ok false := by
  induction items generalizing i with
  | nil => simp [scan]
  | cons item items ih =>
    cases i with
    | zero =>
      cases same : t.slotEq item v with
      | error e => simp [scan_cons_of_error same, same]
      | ok x =>
        cases x with
        | true => simp [scan_cons_of_true same, same]
        | false =>
          rw [scan_cons_of_false same]
          cases t.scan v items <;> simp [Except.map, same]
    | succ i =>
      rw [forall_before_cons, List.getElem?_cons_succ]
      cases same : t.slotEq item v with
      | error e => simp [scan_cons_of_error same]
      | ok x =>
        cases x with
        | true => simp [scan_cons_of_true same]
        | false =>
          rw [scan_cons_of_false same, and_iff_right rfl, ← ih]
          cases t.scan v items <;> simp [Except.map]

/-- A search fails at the first comparison that has no answer, unless it has found a slot before. -/
theorem scan_eq_error {e : Error} : t.scan v items = .error e ↔
    ∃ (i : Nat) (u : Slot), items[i]? = some u ∧ t.slotEq u v = .error e ∧
      ∀ j < i, ∀ u, items[j]? = some u → t.slotEq u v = .ok false := by
  induction items with
  | nil => simp [scan]
  | cons item items ih =>
    -- it fails at the first slot or behind it
    rw [← Nat.or_exists_add_one]
    simp only [forall_before_cons, List.getElem?_cons_succ]
    cases same : t.slotEq item v with
    | error e' => simp [scan_cons_of_error same, same]
    | ok x =>
      cases x with
      | true => simp [scan_cons_of_true same, same]
      | false =>
        have rest : t.scan v (item :: items) = .error e ↔ t.scan v items = .error e := by
          rw [scan_cons_of_false same]
          cases t.scan v items <;> simp [Except.map]
        rw [rest, ih]
        simp [same]

theorem search_eq_ok {l : SlotList} {o : Option Nat} : t.search l v = .ok o ↔
    v.kind = l.kind ∧ t.scan v l.items = .ok o := by
  rw [search, SlotList.checkKind]
  by_cases kind : v.kind = l.kind
  · rw [if_pos kind]
    exact (and_iff_right kind).symm
  · rw [if_neg kind]
    exact iff_of_false (fun h => by cases h) fun h => kind h.1

theorem search_of_kind {l : SlotList} (kind : v.kind = l.kind) :
    t.search l v = t.scan v l.items := by
  rw [search, SlotList.checkKind, if_pos kind]
  rfl

end

end Table

end ScopedHeap
