import ScopedHeap.Proofs.Comparison
import ScopedHeap.Proofs.Intake
import ScopedHeap.Proofs.Statics

/-!
# Keys stay distinct

An entry is appended to a dict only if its key differs from all keys that are there. Keys that refer
to records are compared by what the records hold, so two keys could come to be equal later on, when
a record is gone and another one is found in its place. That does not happen: every slot of a
container has referred to a record that was there at the time it was stored (`History.seen`), what
is gone is not found again as long as no cell runs out of generations, and byte strings and texts do
not change.
-/
namespace ScopedHeap

open Context

/-- No two keys are equal, as far as they can be compared. -/
def SlotDict.Distinct (t : Table) (d : SlotDict) : Prop :=
  d.keys.items.Pairwise fun a b => t.slotEq a b ≠ .ok true

namespace Update

variable {c : Change} {cx : Context} {grants : Grants} {a : Except Error Effect} {x : Ref}
  {p q : Payload}

/-- Unless payloads are exchanged, a byte string or a text in a record that was there has been in it
before. -/
theorem Descends.legible (h : c.Descends cx grants a x p) (plain : c.exchangesPayload = false)
    (before : cx.table.payload? x = some q) (legible : p.Legible) :
    cx.table.payload? x = some p := by
  cases h with
  | moved source found => rwa [eq_of_source plain source] at found
  | reshaped source found shape => cases shape <;> rcases legible with h | h <;> cases h
  | starved change outcome found starves after =>
    rw [after] at legible
    rcases legible with h | h <;> cases h
  | made source absent made =>
    rw [before] at absent
    cases absent
  | overwritten exchanges =>
    rw [plain] at exchanges
    cases exchanges

/-- Unless payloads are exchanged, a dict keeps its keys, and one may be appended that differs from
all of them. -/
theorem Descends.keys {d : SlotDict} (h : c.Descends cx grants a x (.dict d))
    (plain : c.exchangesPayload = false) (before : cx.table.payload? x = some q) :
    ∃ e, q = .dict e ∧ (d.keys.items = e.keys.items ∨ ∃ key,
      d.keys.items = e.keys.items ++ [key] ∧ ∀ u ∈ e.keys.items,
        cx.table.slotEq u key = .ok false) := by
  cases h with
  | moved source found =>
    rw [eq_of_source plain source, before] at found
    exact ⟨d, Option.some.inj found, Or.inl rfl⟩
  | reshaped source found shape =>
    cases before.symm.trans found
    cases shape with
    | replace => exact ⟨_, rfl, Or.inl rfl⟩
    | widen grows => exact ⟨_, rfl, Or.inl grows.1.items⟩
    | @append e k key v _ absent grows =>
      have differs := Table.scan_eq_none.mp (Table.search_eq_ok.mp absent).2
      refine ⟨_, rfl, Or.inr ⟨key, ?_, differs⟩⟩
      rw [SlotList.push, grows.1.items]
  | starved change outcome found starves after =>
    cases before.symm.trans found
    cases after
    refine ⟨_, rfl, Or.inl ?_⟩
    rw [starves.result]
    rfl
  | made source absent =>
    rw [before] at absent
    cases absent
  | overwritten exchanges =>
    rw [plain] at exchanges
    cases exchanges

end Update

namespace History

variable {h : History} {n : Nat} {v : Slot} {x r : Ref}

/-- What the slot refers to, if anything, has been there. -/
def Seen (h : History) (n : Nat) (v : Slot) : Prop :=
  ∀ r, v.ref? = some r → ∃ m ≤ n, (h.record? m r).isSome = true

theorem not_holds_start : ¬ (h.state 0).context.Holds v := by
  rintro ⟨x, p, found, mem⟩
  rw [Payload.slots_of_plain (Context.isContainer_new found)] at mem
  cases mem

variable (h) in
theorem seen (n : Nat) (holds : (h.state (n + 1)).context.Holds v) : h.Seen n v := by
  induction n with
  | zero =>
    intro r refers
    obtain ⟨record, found, _⟩ := (h.holds_succ holds).resolve_left not_holds_start r refers
    exact ⟨0, le_rfl, by simp [record?, found]⟩
  | succ n ih =>
    intro r refers
    rcases h.holds_succ holds with before | admitted
    · obtain ⟨m, le, present⟩ := ih before r refers
      exact ⟨m, Nat.le_succ_of_le le, present⟩
    · obtain ⟨record, found, _⟩ := admitted r refers
      exact ⟨n + 1, le_rfl, by simp [record?, found]⟩

theorem Unrepeated.between {i j k : Nat} {p : Payload} (fresh : h.Unrepeated) (le : i ≤ k)
    (le' : k ≤ j) (first : (h.record? i x).isSome = true)
    (last : (h.state j).context.table.payload? x = some p) :
    ∃ q, (h.state k).context.table.payload? x = some q := by
  have still : (h.record? k x).isSome = true := by
    by_contra absent
    obtain ⟨l, _, lt, removed⟩ := h.exists_removed le first (by simpa using absent)
    obtain ⟨record, found, _⟩ := Table.payload?_eq_some.mp last
    have gone := fresh.absent removed (Nat.lt_of_lt_of_le lt le')
    rw [record?, found] at gone
    cases gone
  obtain ⟨record, found⟩ := Option.isSome_iff_exists.mp still
  exact ⟨record.payload, Table.payload?_of_find? found⟩

/-- What the records that two slots refer to hold is not new, so the slots are not newly equal. -/
theorem Unrepeated.slotEq_of_succ (fresh : h.Unrepeated)
    (plain : ∀ c, h.change? n = some c → c.exchangesPayload = false) {a b : Slot} (ha : h.Seen n a)
    (hb : h.Seen n b) (same : (h.state (n + 1)).context.table.slotEq a b = .ok true) :
    (h.state n).context.table.slotEq a b = .ok true := by
  refine Table.slotEq_congr same ?_
  intro r refers p after legible
  obtain ⟨m, le, seen⟩ : ∃ m ≤ n, (h.record? m r).isSome = true := by
    rcases refers with refers | refers
    · exact ha r refers
    · exact hb r refers
  obtain ⟨q, before⟩ := fresh.between le (Nat.le_succ n) seen after
  cases change : h.change? n with
  | none => exact h.inherits change r p after
  | some c => exact (h.descended change r p after).legible (plain c change) before legible

/-- Within one step, a dict keeps its keys but for one that differs from all others. -/
theorem keys_succ (plain : ∀ c, h.change? n = some c → c.exchangesPayload = false) {d : SlotDict}
    {q : Payload} (before : (h.state n).context.table.payload? x = some q)
    (after : (h.state (n + 1)).context.table.payload? x = some (.dict d)) :
    ∃ e, q = .dict e ∧ (d.keys.items = e.keys.items ∨ ∃ key,
      d.keys.items = e.keys.items ++ [key] ∧ ∀ u ∈ e.keys.items,
        (h.state n).context.table.slotEq u key = .ok false) := by
  cases change : h.change? n with
  | none =>
    cases before.symm.trans (h.inherits change x _ after)
    exact ⟨d, rfl, Or.inl rfl⟩
  | some c => exact (h.descended change x _ after).keys (plain c change) before

theorem Unrepeated.distinct_succ (fresh : h.Unrepeated)
    (plain : ∀ c, h.change? n = some c → c.exchangesPayload = false) {d e : SlotDict}
    (after : (h.state (n + 1)).context.table.payload? x = some (.dict d))
    (keys : d.keys.items = e.keys.items ∨ ∃ key, d.keys.items = e.keys.items ++ [key] ∧
      ∀ u ∈ e.keys.items, (h.state n).context.table.slotEq u key = .ok false)
    (distinct : e.Distinct (h.state n).context.table) :
    d.Distinct (h.state (n + 1)).context.table := by
  have seen : ∀ v ∈ d.keys.items, h.Seen n v := fun v hv =>
    h.seen n ⟨x, _, after, List.mem_append_left _ hv⟩
  -- the new keys do not equal each other at moment `n`
  have earlier : d.Distinct (h.state n).context.table := by
    unfold SlotDict.Distinct at distinct ⊢
    rcases keys with same | ⟨key, appended, differs⟩
    · rwa [same]
    · rw [appended, List.pairwise_append]
      refine ⟨distinct, List.pairwise_singleton _ _, ?_⟩
      intro u hu k hk equal
      rw [List.mem_singleton.mp hk, differs u hu] at equal
      cases equal
  refine earlier.imp_of_mem ?_
  exact fun ha hb differ equal => differ (fresh.slotEq_of_succ plain (seen _ ha) (seen _ hb) equal)

/-- Over every history in which cells keep their generations apart and no payloads are exchanged, a
dict without equal keys comes to have none. -/
theorem Unrepeated.distinct_keys (fresh : h.Unrepeated)
    (plain : ∀ n c, h.change? n = some c → c.exchangesPayload = false) {i j : Nat} (le : i ≤ j)
    {d e : SlotDict} (first : (h.state i).context.dict x = .ok d)
    (last : (h.state j).context.dict x = .ok e)
    (distinct : d.Distinct (h.state i).context.table) : e.Distinct (h.state j).context.table := by
  have payload? {n : Nat} {d : SlotDict} (found : (h.state n).context.dict x = .ok d) :
      (h.state n).context.table.payload? x = some (.dict d) := by
    obtain ⟨record, found, payload⟩ := dict_eq_ok found
    rw [Table.payload?_of_find? found, payload]
  induction le generalizing e with
  | refl =>
    cases first.symm.trans last
    exact distinct
  | @step n le ih =>
    have born : (h.record? i x).isSome = true := by
      obtain ⟨record, found, _⟩ := dict_eq_ok first
      rw [record?, found]
      rfl
    obtain ⟨q, before⟩ := fresh.between le (Nat.le_succ n) born (payload? last)
    obtain ⟨k, rfl, keys⟩ := keys_succ (plain n) before (payload? last)
    exact fresh.distinct_succ (plain n) (payload? last) keys (ih (dict_of_payload? before))

/-- Keys are inserted into an empty dict by the program and by the hook of a record that is equal to
the first of them. The cell of that record is used again for another key. -/
def reused : History where
  settings := {}
  memory := .ample
  program := [.update (.newDict .str .int [] []) .strict none,
    .update (.newStr [1]) .strict none,
    .update (.dictInsert (.ref ⟨2, 0⟩) (.str (.ref ⟨3, 0⟩)) (.int 7)) .strict none,
    .update (.newStr [1]) .strict none,
    .setHook (.ref ⟨4, 0⟩) "again"
      [.update (.dictInsert (.ref ⟨2, 0⟩) (.str (.ref ⟨3, 0⟩)) (.int 9)) .checked none],
    .update (.decrement .heap false (.ref ⟨4, 0⟩)) .strict none,
    .update (.newStr [2]) .strict none,
    .update (.dictInsert (.ref ⟨2, 0⟩) (.str (.ref ⟨4, 1⟩)) (.int 8)) .strict none]
  closing := none
  idle := by
    intro n hn
    cases hn

theorem distinct_keys_reused : reused.Unrepeated ∧
    (reused.state 2).context.dict ⟨2, 0⟩ = .ok ⟨⟨.str, [], 1⟩, ⟨.int, [], 1⟩⟩ ∧
    reused.Destroys 9 ⟨4, 0⟩ ∧
    ∃ d, (reused.state 19).context.dict ⟨2, 0⟩ = .ok d ∧
      d.keys.items = [.str (some ⟨3, 0⟩), .str (some ⟨4, 1⟩)] ∧
      d.Distinct (reused.state 19).context.table := by
  have unclosed : ∀ m, 19 ≤ m → reused.closing ≠ some m := fun _ _ h => nomatch h
  have fresh : reused.Unrepeated := reused.unrepeated_of_stopped unclosed (Or.inr rfl) (by decide)
  have plain : ∀ n c, reused.change? n = some c → c.exchangesPayload = false := by
    intro n c change
    rcases Nat.lt_or_ge n 19 with lt | le
    · have early : ∀ n < 19, ∀ c ∈ reused.change? n, c.exchangesPayload = false := by decide
      exact early n lt c change
    · rw [change?, (reused.still_of_stopped unclosed (Or.inr rfl) le).1] at change
      cases change
  have first : (reused.state 2).context.dict ⟨2, 0⟩ = .ok ⟨⟨.str, [], 1⟩, ⟨.int, [], 1⟩⟩ := rfl
  refine ⟨fresh, first, ⟨_, rfl⟩, _, rfl, rfl, ?_⟩
  exact fresh.distinct_keys plain (by decide : 2 ≤ 19) first rfl .nil

end History

end ScopedHeap
