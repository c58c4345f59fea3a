import ScopedHeap.Proofs.Atomicity
import ScopedHeap.Proofs.Comparison
import ScopedHeap.Proofs.Intake
import ScopedHeap.Proofs.Layout
import ScopedHeap.Proofs.Statics
import ScopedHeap.Proofs.Teardown

/-!
# Looking slots up by content

Among lawful books every slot refers to a record that is there and holds what the kind of the slot
requires (`Books.Run.suits`). A search for a slot of the same kind then meets no comparison without
an answer. It finds the first slot with the same content, which is null, bytes, a whole number or
the number that a bit pattern stands for.
-/
namespace ScopedHeap

open Context

/-- What a slot shows. -/
inductive Content where
  | null
  | bytes (data : List UInt8)
  | byte (b : UInt8)
  | number (q : Binary64.Number)
  | uint (n : UInt64)
  | int (i : Int64)
  deriving DecidableEq, Repr

def Payload.bytes? : Payload → Option (List UInt8)
  | .str bytes => some bytes
  | .text content => some content.toByteArray.data.toList
  | .raw _ | .list _ | .dict _ | .set _ => none

theorem Payload.eq_of_bytes? {p q : Payload} {data : List UInt8} (kind : q.kind = p.kind)
    (hp : p.bytes? = some data) (hq : q.bytes? = some data) : p = q := by
  cases p with
  | str =>
    cases q <;> cases kind
    cases hp
    cases hq
    rfl
  | text content =>
    cases q with
    | text other =>
      have same : content.toByteArray.data.toList = other.toByteArray.data.toList :=
        Option.some.inj (hp.trans hq.symm)
      rw [String.toByteArray_inj.mp (ByteArray.ext (Array.toList_inj.mp same))]
    | raw | str | list | dict | set => cases kind
  | raw | list | dict | set => cases hp

theorem Payload.Legible.bytes? {p : Payload} (h : p.Legible) : ∃ data, p.bytes? = some data := by
  cases p with
  | str bytes => exact ⟨bytes, rfl⟩
  | text content => exact ⟨_, rfl⟩
  | raw | list | dict | set => rcases h with h | h <;> cases h

namespace Table

variable {t : Table} {a b v : Slot} {l : SlotList}

def refContent? (t : Table) (r : Option Ref) : Option Content :=
  r.elim (some .null) fun r => ((t.payload? r).bind Payload.bytes?).map .bytes

/-- The content of a slot. A NaN has none that could be found, and a generic slot may refer to
anything. -/
def content? (t : Table) : Slot → Option Content
  | .object _ => none
  | .str r | .text r => t.refContent? r
  | .byte b => some (.byte b)
  | .float x => x.number?.map .number
  | .uint n => some (.uint n)
  | .int i => some (.int i)

def SameContent (t : Table) (a b : Slot) : Prop :=
  ∃ content, t.content? a = some content ∧ t.content? b = some content

/-- What the slot refers to, if anything, is there and holds what the kind of the slot requires. -/
def Suits (t : Table) (v : Slot) : Prop :=
  ∀ r, v.ref? = some r → ∃ p, t.payload? r = some p ∧ ∀ kind ∈ v.kind.required, p.kind = kind

theorem Admits.suits (h : t.Admits v) : t.Suits v := by
  intro r refers
  obtain ⟨record, found, typed, _⟩ := h r refers
  exact ⟨record.payload, payload?_of_find? found, typed⟩

theorem refContent?_some {r : Ref} {p : Payload} {data : List UInt8} (found : t.payload? r = some p)
    (bytes : p.bytes? = some data) : t.refContent? (some r) = some (.bytes data) := by
  simp [refContent?, found, bytes]

theorem Suits.of_required {content : PayloadKind} (h : t.Suits v)
    (required : v.kind.required = some content) (r : Ref) (refers : v.ref? = some r) :
    ∃ p, t.payload? r = some p ∧ p.kind = content := by
  obtain ⟨p, found, typed⟩ := h r refers
  exact ⟨p, found, typed content required⟩

theorem refEq_of_reads {kind : SlotKind} {content : PayloadKind} {r s : Option Ref}
    (reads : kind.reads content = true)
    (hr : ∀ x, r = some x → ∃ p, t.payload? x = some p ∧ p.kind = content)
    (hs : ∀ x, s = some x → ∃ p, t.payload? x = some p ∧ p.kind = content) :
    ∃ x, t.refEq kind r s = .ok x ∧
      (x = true ↔ ∃ c, t.refContent? r = some c ∧ t.refContent? s = some c) := by
  have legible {p : Payload} (h : p.kind = content) : ∃ data, p.bytes? = some data :=
    (SlotKind.legible_of_reads (h ▸ reads)).bytes?
  simp only [refEq_eq_ok]
  cases r with
  | none =>
    cases s with
    | none => exact ⟨true, .null, by simp [refContent?]⟩
    | some s =>
      obtain ⟨q, hq, kind⟩ := hs s rfl
      obtain ⟨data, bytes⟩ := legible kind
      refine ⟨false, .right s, ?_⟩
      rw [refContent?_some hq bytes]
      simp [refContent?]
  | some r =>
    obtain ⟨p, hp, pkind⟩ := hr r rfl
    obtain ⟨data, bytes⟩ := legible pkind
    rw [refContent?_some hp bytes]
    cases s with
    | none => exact ⟨false, .left r, by simp [refContent?]⟩
    | some s =>
      obtain ⟨q, hq, qkind⟩ := hs s rfl
      obtain ⟨data', bytes'⟩ := legible qkind
      rw [refContent?_some hq bytes']
      by_cases e : r = s
      · cases e
        cases hp.symm.trans hq
        cases bytes.symm.trans bytes'
        exact ⟨true, .same r, by simp⟩
      · refine ⟨_, .content e hp hq (pkind ▸ reads) (qkind.trans pkind.symm), ?_⟩
        have same : p = q ↔ data = data' := by
          constructor
          · rintro rfl
            exact Option.some.inj (bytes.symm.trans bytes')
          · rintro rfl
            exact Payload.eq_of_bytes? (qkind.trans pkind.symm) bytes bytes'
        simp [same, eq_comm]

theorem slotEq_of_suits (kind : b.kind = a.kind) (typed : a.kind ≠ .object) (ha : t.Suits a)
    (hb : t.Suits b) : ∃ x, t.slotEq a b = .ok x ∧ (x = true ↔ t.SameContent a b) := by
  cases a with
  | object => exact absurd rfl typed
  | str r =>
    cases b <;> cases kind
    have reads : SlotKind.str.reads .str = true := rfl
    exact refEq_of_reads reads (ha.of_required rfl) (hb.of_required rfl)
  | text r =>
    cases b <;> cases kind
    have reads : SlotKind.text.reads .text = true := rfl
    exact refEq_of_reads reads (ha.of_required rfl) (hb.of_required rfl)
  | float x =>
    cases b <;> cases kind
    refine ⟨_, rfl, ?_⟩
    simp [SameContent, content?, Binary64.numEq_iff]
  | byte | uint | int =>
    cases b <;> cases kind
    refine ⟨_, rfl, ?_⟩
    simp only [SameContent, content?, beq_iff_eq, Option.some.injEq, exists_eq_left',
      Content.byte.injEq, Content.uint.injEq, Content.int.injEq]
    exact eq_comm

theorem scan_of_answers {items : List Slot} (answers : ∀ u ∈ items, ∃ x, t.slotEq u v = .ok x) :
    ∃ o, t.scan v items = .ok o := by
  induction items with
  | nil => exact ⟨none, rfl⟩
  | cons item items ih =>
    obtain ⟨first, rest⟩ := List.forall_mem_cons.mp answers
    obtain ⟨x, hx⟩ := first
    cases x with
    | true => exact ⟨_, scan_cons_of_true hx⟩
    | false =>
      obtain ⟨o, ho⟩ := ih rest
      exact ⟨_, (scan_cons_of_false hx).trans (congrArg _ ho)⟩

/-- Where a list has the content of a slot. -/
def places (t : Table) (l : SlotList) (v : Slot) : Set Nat :=
  {i | ∃ u, l.items[i]? = some u ∧ t.SameContent u v}

/-- The outcome of a search by content: the first place with the content, if there is one. -/
structure Locates (t : Table) (l : SlotList) (v : Slot) (o : Option Nat) : Prop where
  answer : t.search l v = .ok o
  present : o.isSome = true ↔ (t.places l v).Nonempty
  first : ∀ i, o = some i ↔ IsLeast (t.places l v) i

theorem locates_of_suits (kinds : ∀ u ∈ l.items, u.kind = l.kind) (suits : ∀ u ∈ l.items, t.Suits u)
    (typed : l.kind ≠ .object) (kind : v.kind = l.kind) (probe : t.Suits v) :
    ∃ o, t.Locates l v o := by
  have compared : ∀ u ∈ l.items, ∃ x, t.slotEq u v = .ok x ∧ (x = true ↔ t.SameContent u v) :=
    fun u hu => slotEq_of_suits (kind.trans (kinds u hu).symm) (kinds u hu ▸ typed) (suits u hu)
      probe
  have found {i : Nat} {u : Slot} (hu : l.items[i]? = some u) (h : t.slotEq u v = .ok true) :
      i ∈ t.places l v := by
    obtain ⟨x, hx, same⟩ := compared u (List.mem_of_getElem? hu)
    exact ⟨u, hu, same.mp (Except.ok.inj (hx.symm.trans h))⟩
  have passed {i : Nat} {u : Slot} (hu : l.items[i]? = some u) (h : t.slotEq u v = .ok false) :
      i ∉ t.places l v := by
    rintro ⟨u', hu', content⟩
    cases hu.symm.trans hu'
    obtain ⟨x, hx, same⟩ := compared u (List.mem_of_getElem? hu)
    cases (Except.ok.inj (hx.symm.trans h)).symm.trans (same.mpr content)
  obtain ⟨o, ho⟩ := scan_of_answers fun u hu => (compared u hu).imp fun _ h => h.1
  have answer : t.search l v = .ok o := search_eq_ok.mpr ⟨kind, ho⟩
  cases o with
  | none =>
    have empty : t.places l v = ∅ := by
      apply Set.eq_empty_of_forall_notMem
      rintro i ⟨u, hu, content⟩
      have differs := scan_eq_none.mp ho u (List.mem_of_getElem? hu)
      exact passed hu differs ⟨u, hu, content⟩
    exact ⟨none, answer, by simp [empty], by simp [empty, IsLeast]⟩
  | some k =>
    obtain ⟨⟨u, hu, same⟩, before⟩ := scan_eq_some.mp ho
    have least : IsLeast (t.places l v) k := by
      refine ⟨found hu same, ?_⟩
      rintro j ⟨u', hu', content⟩
      by_contra lt
      exact passed hu' (before j (Nat.lt_of_not_le lt) u' hu') ⟨u', hu', content⟩
    refine ⟨some k, answer, ?_, ?_⟩
    · simp [Set.nonempty_of_mem least.1]
    · intro i
      constructor
      · rintro ⟨⟩
        exact least
      · exact fun other => congrArg some (least.unique other)

end Table

theorem Context.Holds.slotCount_pos {cx : Context} {v : Slot} {r : Ref} (holds : cx.Holds v)
    (refers : v.ref? = some r) : 0 < cx.table.slotCount r := by
  obtain ⟨x, p, found, mem⟩ := holds
  obtain ⟨record, there, rfl⟩ := Table.payload?_eq_some.mp found
  exact Context.slotCount_pos there (List.mem_filterMap.mpr ⟨v, mem, refers⟩)

theorem Payload.mem_slots {p : Payload} {l : SlotList} {v : Slot} (list : l ∈ p.lists)
    (mem : v ∈ l.items) : v ∈ p.slots := by
  cases p with
  | raw | str | text => cases list
  | list | set =>
    rw [List.mem_singleton.mp list] at mem
    exact mem
  | dict d =>
    rcases List.mem_cons.mp list with rfl | list
    · exact List.mem_append_left _ mem
    · rw [List.mem_singleton.mp list] at mem
      exact List.mem_append_right _ mem

namespace Machine

variable {m : Machine} {x : Ref} {p q : Payload}

theorem kind_step (sound : m.context.Sound) (plain : ∀ c ∈ m.change?, c.exchangesPayload = false)
    (before : m.context.table.payload? x = some p)
    (after : m.step.context.table.payload? x = some q) : q.kind = p.kind := by
  cases change : m.change? with
  | none =>
    cases before.symm.trans (m.inherits_step sound change x q after)
    rfl
  | some c =>
    have descended := m.after_change sound change (Act.ends_descends c _ sound)
    exact (descended x q after).kind_eq (plain c change) before

theorem listLimit_step (sound : m.context.Sound) :
    m.step.context.listLimit = m.context.listLimit := by
  rcases m.step_cases with same | ⟨running, t, rest, next⟩
  · rw [same]
  · obtain ⟨ds, new, turn, _⟩ := turn_step sound running next
    exact congrArg Settings.listLimit turn.path.settings_eq

/-- Every list is laid out as one that was made from some number of slots. -/
theorem Reachable.fits (h : m.Reachable) : ∃ origins : Ref → Nat, ∀ x p,
    m.context.table.payload? x = some p → p.Fits m.context.listLimit (origins x) := by
  induction h with
  | start settings memory program =>
    exact ⟨fun _ => 0, fun x p found => Payload.fits_of_plain (isContainer_new found)⟩
  | @step m reachable ih =>
    obtain ⟨origins, fits⟩ := ih
    have sound := reachable.sound
    rw [listLimit_step sound]
    cases change : m.change? with
    | none => exact ⟨origins, fun x p found => fits x p (m.inherits_step sound change x p found)⟩
    | some c =>
      have descended := m.after_change sound change (Act.ends_descends c _ sound)
      exact ⟨_, fun x p found => (descended x p found).fits fits⟩
  | closing _ _ ih => exact ih

end Machine

namespace Books

variable {b : Books} {v : Slot}

/-- Every slot refers to a record of the contents that its kind requires. -/
theorem Run.suits (run : b.Run Lawful) (holds : b.machine.context.Holds v) :
    b.machine.context.table.Suits v := by
  induction run with
  | start settings memory program =>
    obtain ⟨x, p, found, mem⟩ := holds
    rw [Payload.slots_of_plain (isContainer_new found)] at mem
    cases mem
  | @step b run lawful ih =>
    have sound := run.kept.sound
    have before : b.machine.context.table.Suits v :=
      (Machine.holds_step sound holds).elim ih Table.Admits.suits
    intro r refers
    obtain ⟨p, there, typed⟩ := before r refers
    -- what is stored is there
    obtain ⟨record, still, _⟩ :=
      (run.step lawful).kept.find? (Or.inr (Or.inl (holds.slotCount_pos refers)))
    have after := Table.payload?_of_find? still
    refine ⟨record.payload, after, ?_⟩
    rw [Machine.kind_step sound lawful.plain there after]
    exact typed
  | closing _ _ ih => exact ih holds

/-- Among lawful books, looking for a slot in a list of its own kind, other than a generic one,
always has an answer: the first place with the content of the slot. Whether there is such a place is
what the questions for membership answer. -/
theorem Run.typed_lookup (run : b.Run Lawful) {x : Ref} {record : Record} {l : SlotList} {v : Slot}
    (found : b.machine.context.table.find? x = some record) (mem : l ∈ record.payload.lists)
    (typed : l.kind ≠ .object) (kind : v.kind = l.kind)
    (probe : b.machine.context.table.Suits v) :
    ∃ o, b.machine.context.table.Locates l v o ∧
      (record.payload = .list l →
        b.machine.context.answer (.listFind x v) = .ok (.position o) ∧
        b.machine.context.answer (.listContains x v) = .ok (.flag o.isSome)) ∧
      (record.payload = .set ⟨l⟩ →
        b.machine.context.answer (.setContains x v) = .ok (.flag o.isSome)) ∧
      ∀ d, record.payload = .dict d →
        (l = d.keys →
          b.machine.context.answer (.dictFindKey x v) = .ok (.position o) ∧
          b.machine.context.answer (.dictContainsKey x v) = .ok (.flag o.isSome)) ∧
        (l = d.values →
          b.machine.context.answer (.dictContainsValue x v) = .ok (.flag o.isSome)) := by
  have stored := Table.payload?_of_find? found
  obtain ⟨origins, fits⟩ := run.reachable.fits
  obtain ⟨o, located⟩ := Table.locates_of_suits (fits x _ stored l mem).kinds
    (fun u hu => run.suits ⟨x, _, stored, Payload.mem_slots mem hu⟩) typed kind probe
  have payload := payload_of_payload? stored
  refine ⟨o, located, ?_, ?_, ?_⟩
  · intro hl
    have searched : b.machine.context.listFind x v = .ok o := by
      rw [listFind, Context.list, payload, hl]
      exact located.answer
    simp only [Context.answer, searched]
    exact ⟨rfl, rfl⟩
  · intro hs
    have searched : b.machine.context.setFind x v = .ok o := by
      rw [setFind, Context.set, payload, hs]
      exact located.answer
    simp only [Context.answer, searched]
    rfl
  · intro d hd
    constructor
    · rintro rfl
      have searched : b.machine.context.dictFindKey x v = .ok o := by
        rw [dictFindKey, Context.dict, payload, hd]
        exact located.answer
      simp only [Context.answer, searched]
      exact ⟨rfl, rfl⟩
    · rintro rfl
      have searched : b.machine.context.dictFindValue x v = .ok o := by
        rw [dictFindValue, Context.dict, payload, hd]
        exact located.answer
      simp only [Context.answer, searched]
      rfl

/-- Equal strings and both zeros, as keys and values of a dict. -/
def glossary : Books where
  machine := .start {} .ample [.update (.newStr [7]) .strict none,
    .update (.newStr [7]) .strict none,
    .update (.newDict .float .str [.float ⟨0x7ff8000000000000⟩, .float ⟨0x8000000000000000⟩]
      [.str .null, .str (.ref ⟨2, 0⟩)]) .strict none]
  owned := fun _ => 0

theorem typed_lookup_glossary : ∃ d, (glossary.steps 6).machine.context.dict ⟨4, 0⟩ = .ok d ∧
    IsLeast ((glossary.steps 6).machine.context.table.places d.keys (.float ⟨0⟩)) 1 ∧
    IsLeast ((glossary.steps 6).machine.context.table.places d.values (.str (some ⟨3, 0⟩))) 1 ∧
    (glossary.steps 6).machine.context.answer (.dictContainsValue ⟨4, 0⟩ (.str (some ⟨3, 0⟩))) =
      .ok (.flag true) := by
  have run : (glossary.steps 6).Run Lawful := (Run.start _ _ _).steps 6 (by decide)
  have suits : (glossary.steps 6).machine.context.table.Suits (.str (some ⟨3, 0⟩)) := by
    rintro _ ⟨⟩
    exact ⟨_, rfl, by decide⟩
  obtain ⟨o, keys, _, _, _⟩ := run.typed_lookup (x := ⟨4, 0⟩) (v := .float ⟨0⟩) rfl
    List.mem_cons_self (by decide) rfl (fun _ h => nomatch h)
  obtain ⟨o', values, _, _, asked⟩ := run.typed_lookup (x := ⟨4, 0⟩) rfl
    (List.mem_cons_of_mem _ List.mem_cons_self) (by decide) rfl suits
  cases keys.answer
  cases values.answer
  exact ⟨_, rfl, (keys.first 1).mp rfl, (values.first 1).mp rfl, (asked _ rfl).2 rfl⟩

end Books

end ScopedHeap
