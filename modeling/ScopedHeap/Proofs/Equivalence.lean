import ScopedHeap.Proofs.Comparison
import ScopedHeap.Proofs.Endings

/-!
# Equality of slots as an equivalence

Slots that are equal cannot be told apart: whatever they are compared with, and from whichever side,
they give the same answer or the same error (`Table.slotEq_congr_of_eq`). Together with reflexivity,
symmetry and transitivity this makes equality an equivalence wherever it is defined
(`Table.Equates`). Byte strings have a comparison of their own, `Table.strEq`, which looks at one
record after the other and comes to the same answers (`Table.strEq_eq_ok`).
-/
namespace ScopedHeap

/-- Only a float can be a NaN. -/
def Slot.isNaN : Slot → Bool
  | .float x => x.isNaN
  | _ => false

theorem Payload.asStr_eq_ok {p : Payload} {bytes : List UInt8} :
    p.asStr = .ok bytes ↔ p = .str bytes := by
  cases p <;> simp [asStr]

theorem Binary64.numEq_congr {x y : Binary64} (h : x.numEq y = true) (z : Binary64) :
    x.numEq z = y.numEq z := by
  have back : y.numEq x = true := numEq_comm.trans h
  exact Bool.eq_iff_iff.mpr ⟨numEq_trans back, numEq_trans h⟩

namespace Table

variable {t : Table} {kind : SlotKind} {a b : Slot} {r : Ref} {o o' : Option Ref} {p : Payload}
  {x : Bool}

theorem contentEq_self (reads : kind.reads p.kind = true) : contentEq kind p p = .ok true :=
  contentEq_eq_ok.mpr ⟨reads, rfl, (decide_eq_true rfl).symm⟩

/-- A reference to a record that can be read is compared by content, even with itself. -/
theorem refEq_of_reads_left (held : t.payload? r = some p) (reads : kind.reads p.kind = true)
    (s : Ref) : t.refEq kind (some r) (some s) =
      t.find s >>= fun other => contentEq kind p other.payload := by
  obtain ⟨record, found, rfl⟩ := payload?_eq_some.mp held
  have found := find_eq_ok_iff.mpr found
  rw [refEq]
  by_cases e : r = s
  · rw [if_pos e, ← e, found]
    exact (contentEq_self reads).symm
  · rw [if_neg e, found]
    rfl

theorem refEq_of_reads_right (held : t.payload? r = some p) (reads : kind.reads p.kind = true)
    (s : Ref) : t.refEq kind (some s) (some r) =
      t.find s >>= fun other => contentEq kind other.payload p := by
  obtain ⟨record, found, rfl⟩ := payload?_eq_some.mp held
  have found := find_eq_ok_iff.mpr found
  rw [refEq]
  by_cases e : s = r
  · rw [if_pos e, e, found]
    exact (contentEq_self reads).symm
  · rw [if_neg e, found]
    rfl

theorem refEq_congr_of_eq (h : t.RefCompares kind o o' true) (q : Option Ref) :
    t.refEq kind o q = t.refEq kind o' q ∧ t.refEq kind q o = t.refEq kind q o' := by
  rcases refCompares_true.mp h with rfl | ⟨p, reads, left, right⟩
  · exact ⟨rfl, rfl⟩
  · obtain ⟨r, rfl, left⟩ := Option.bind_eq_some_iff.mp left
    obtain ⟨s, rfl, right⟩ := Option.bind_eq_some_iff.mp right
    cases q with
    | none => exact ⟨rfl, rfl⟩
    | some q =>
      rw [refEq_of_reads_left left reads, refEq_of_reads_left right reads,
        refEq_of_reads_right left reads, refEq_of_reads_right right reads]
      exact ⟨rfl, rfl⟩

theorem slotEq_of_kind_ne (other : b.kind ≠ a.kind) :
    t.slotEq a b = .error (.kindMismatch a.kind b.kind) := by
  cases a <;> cases b <;> first | rfl | exact absurd rfl other

/-- Slots that are equal give the same answers and the same errors. -/
theorem slotEq_congr_of_eq (h : t.slotEq a b = .ok true) (c : Slot) :
    t.slotEq a c = t.slotEq b c ∧ t.slotEq c a = t.slotEq c b := by
  have same := (slotEq_eq_ok.mp h).kind_eq
  by_cases kind : c.kind = a.kind
  swap
  · have kind' : c.kind ≠ b.kind := fun e => kind (e.trans same)
    rw [slotEq_of_kind_ne kind, slotEq_of_kind_ne kind', slotEq_of_kind_ne (Ne.symm kind),
      slotEq_of_kind_ne (Ne.symm kind'), same]
    exact ⟨rfl, rfl⟩
  cases isRef : a.kind.isRef with
  | true =>
    rw [slotEq_of_isRef isRef same, refEq_eq_ok] at h
    rw [slotEq_of_isRef isRef kind, slotEq_of_isRef (same ▸ isRef) (kind.trans same.symm),
      slotEq_of_isRef (kind ▸ isRef) kind.symm,
      slotEq_of_isRef (kind ▸ isRef) (same.trans kind.symm), same, kind]
    exact refEq_congr_of_eq h c.ref?
  | false =>
    cases a with
    | object | str | text => cases isRef
    | byte | uint | int =>
      cases b <;> cases same
      rw [beq_iff_eq.mp (Except.ok.inj h)]
      exact ⟨rfl, rfl⟩
    | float x =>
      cases b <;> cases same
      cases c <;> cases kind
      rename_i y z
      have congr := Binary64.numEq_congr (Except.ok.inj h) z
      rw [slotEq, slotEq, slotEq, slotEq, Binary64.numEq_comm (x := z),
        Binary64.numEq_comm (x := z), congr]
      exact ⟨rfl, rfl⟩

theorem slotEq_self_eq (t : Table) (a : Slot) : t.slotEq a a = .ok (!a.isNaN) := by
  cases nan : a.isNaN with
  | false =>
    refine slotEq_self ?_
    rintro x rfl
    exact nan
  | true =>
    cases a with
    | float x =>
      have nan : x.isNaN = true := nan
      simp [slotEq, Binary64.numEq, nan]
    | object | str | text | byte | uint | int => cases nan

theorem slotEq_comm : t.slotEq a b = .ok x ↔ t.slotEq b a = .ok x := ⟨slotEq_symm, slotEq_symm⟩

theorem slotEq_error_comm :
    (∃ e, t.slotEq a b = .error e) ↔ ∃ e, t.slotEq b a = .error e := by
  have one : ∀ {a b}, (∃ e, t.slotEq a b = .error e) → ∃ e, t.slotEq b a = .error e := by
    rintro a b ⟨e, failed⟩
    cases back : t.slotEq b a with
    | error e' => exact ⟨e', rfl⟩
    | ok x => cases failed.symm.trans (slotEq_symm back)
  exact ⟨one, one⟩

/-- The comparison of byte strings has the answers of the comparison of string slots. -/
theorem strEq_eq_ok : t.strEq o o' = .ok x ↔ t.slotEq (.str o) (.str o') = .ok x := by
  show t.strEq o o' = .ok x ↔ t.refEq .str o o' = .ok x
  cases o with
  | none => cases o' <;> rfl
  | some r =>
    cases o' with
    | none => rfl
    | some s =>
      by_cases e : r = s
      · rw [strEq, refEq, if_pos e, if_pos e]
      rw [refEq_eq_ok, strEq, if_neg e]
      constructor
      · intro h
        obtain ⟨first, hfirst, h⟩ := bind_eq_ok.mp h
        obtain ⟨left, hleft, h⟩ := bind_eq_ok.mp h
        obtain ⟨second, hsecond, h⟩ := bind_eq_ok.mp h
        obtain ⟨right, hright, h⟩ := bind_eq_ok.mp h
        cases h
        have hp := payload?_of_find? (find_eq_ok_iff.mp hfirst)
        have hq := payload?_of_find? (find_eq_ok_iff.mp hsecond)
        rw [Payload.asStr_eq_ok.mp hleft] at hp
        rw [Payload.asStr_eq_ok.mp hright] at hq
        have content : (left == right) = decide (Payload.str left = Payload.str right) := by
          simp [beq_eq_decide]
        rw [content]
        exact .content e hp hq rfl rfl
      · intro h
        cases h with
        | same => exact absurd rfl e
        | @content _ _ p q _ left right reads same =>
          obtain ⟨first, hfirst, rfl⟩ := payload?_eq_some.mp left
          obtain ⟨second, hsecond, rfl⟩ := payload?_eq_some.mp right
          rw [find_eq_ok_iff.mpr hfirst, find_eq_ok_iff.mpr hsecond]
          obtain ⟨_, p⟩ := first
          obtain ⟨_, q⟩ := second
          cases p <;> cases reads
          cases q <;> cases same
          simp [Payload.asStr, Bind.bind, Except.bind, Pure.pure, Except.pure, beq_eq_decide]

end Table

namespace Machine

variable {m : Machine} {site : Site} {q : WrittenQuery} {question : Question} {policy : Policy}
  {bind : Option String} {rest : List Task}

theorem step_of_answered {answer : Answer} (running : m.fault = none)
    (agenda : m.agenda = .perform site (.ask q policy bind) :: rest)
    (read : m.bindings.query q = .ok question)
    (answered : m.context.answer question = .ok answer) :
    m.step = deliver { m with agenda := rest } ⟨site, policy, bind⟩ (.ok answer) := by
  rw [step_eq running agenda, execute, perform]
  dsimp only
  rw [read]
  dsimp only
  rw [answered]

theorem step_of_unanswered {e : Error} (running : m.fault = none)
    (agenda : m.agenda = .perform site (.ask q policy bind) :: rest)
    (read : m.bindings.query q = .ok question)
    (unanswered : m.context.answer question = .error e) :
    m.step = fail { m with agenda := rest } ⟨site, policy, bind⟩ e := by
  rw [step_eq running agenda, execute, perform]
  dsimp only
  rw [read]
  dsimp only
  rw [unanswered]

theorem returns_ask_iff {answer : Answer} (running : m.fault = none)
    (agenda : m.agenda = .perform site (.ask q policy bind) :: rest)
    (read : m.bindings.query q = .ok question) :
    Returns rest m 1 site (.ok answer) ↔ m.context.answer question = .ok answer := by
  constructor
  · intro returns
    have told : m.step.Tells site (.ok answer) := returns.tells
    have goes : m.step.fault = none := returns.completes.ended.2
    cases asked : m.context.answer question with
    | ok found =>
      rw [step_of_answered running agenda read asked] at told
      exact (tells_deliver _ ⟨site, policy, bind⟩ (.ok found)).unique told
    | error e =>
      rw [step_of_unanswered running agenda read asked] at told goes
      cases policy with
      | checked => cases (tells_deliver _ ⟨site, .checked, bind⟩ (.error e)).unique told
      | strict => cases goes
  · intro answered
    have next := step_of_answered running agenda read answered
    refine ⟨@Completes.step _ _ _ [] _ agenda running (.done ?_ ?_), ?_⟩
    · rw [next]
      rfl
    · rw [next]
      exact running
    · show m.step.Tells site (.ok answer)
      rw [next]
      exact tells_deliver _ ⟨site, policy, bind⟩ (.ok answer)

theorem stops_ask_iff (running : m.fault = none)
    (agenda : m.agenda = .perform site (.ask q .strict bind) :: rest)
    (read : m.bindings.query q = .ok question) :
    (∃ e, m.step.fault = some (.error e)) ↔ ∃ e, m.context.answer question = .error e := by
  cases asked : m.context.answer question with
  | ok answer =>
    have goes : m.step.fault = none := by
      rw [step_of_answered running agenda read asked]
      exact running
    simp [goes]
  | error e =>
    have stopped : m.step.fault = some (.error e) := by
      rw [step_of_unanswered running agenda read asked]
      rfl
    exact iff_of_true ⟨e, stopped⟩ ⟨e, rfl⟩

end Machine

namespace Table

/-- Equality of slots is an equivalence wherever it is defined, and byte strings are compared by the
same rule. -/
structure Equates (t : Table) : Prop where
  self : ∀ a, t.slotEq a a = .ok (!a.isNaN)
  symm : ∀ a b x, t.slotEq a b = .ok x ↔ t.slotEq b a = .ok x
  undefined : ∀ a b, (∃ e, t.slotEq a b = .error e) ↔ ∃ e, t.slotEq b a = .error e
  trans : ∀ a b c, t.slotEq a b = .ok true → t.slotEq b c = .ok true → t.slotEq a c = .ok true
  congr : ∀ a b, t.slotEq a b = .ok true → ∀ c,
    t.slotEq a c = t.slotEq b c ∧ t.slotEq c a = t.slotEq c b
  strings : ∀ r s x, t.strEq r s = .ok x ↔ t.slotEq (.str r) (.str s) = .ok x
  /-- A program that asks for the equality of two byte strings is answered if their slots can be
  compared, and is stopped otherwise. -/
  asked : ∀ {m : Machine} {site : Site} {q : WrittenQuery} {bind : Option String}
    {rest : List Task} {r s : Option Ref}, m.context.table = t → m.fault = none →
    m.agenda = .perform site (.ask q .strict bind) :: rest →
    m.bindings.query q = .ok (.strEq r s) →
    (∀ x, Machine.Returns rest m 1 site (.ok (.flag x)) ↔
      t.slotEq (.str r) (.str s) = .ok x) ∧
    ((∃ e, m.step.fault = some (.error e)) ↔ ∃ e, t.slotEq (.str r) (.str s) = .error e)

theorem slots_equate (t : Table) : t.Equates where
  self := slotEq_self_eq t
  symm := fun _ _ _ => slotEq_comm
  undefined := fun _ _ => slotEq_error_comm
  trans := fun _ _ _ => slotEq_trans
  congr := fun _ _ => slotEq_congr_of_eq
  strings := fun _ _ _ => strEq_eq_ok
  asked := by
    rintro m site q bind rest r s rfl running agenda read
    have answer : m.context.answer (.strEq r s) =
        (m.context.table.strEq r s).map .flag := by
      rw [Context.answer]
      cases m.context.table.strEq r s <;> rfl
    constructor
    · intro x
      rw [Machine.returns_ask_iff running agenda read, answer, ← strEq_eq_ok]
      cases m.context.table.strEq r s <;> simp [Except.map]
    · rw [Machine.stops_ask_iff running agenda read, answer]
      cases compared : m.context.table.strEq r s with
      | ok x => simp [Except.map, strEq_eq_ok.mp compared]
      | error e =>
        refine iff_of_true ⟨e, rfl⟩ ?_
        cases other : m.context.table.slotEq (.str r) (.str s) with
        | ok x => cases compared.symm.trans (strEq_eq_ok.mpr other)
        | error e' => exact ⟨e', rfl⟩

/-- Two strings with the same bytes, and a list. -/
def twins : Table :=
  ((Machine.start {} .ample [.update (.newStr [7]) .strict none, .update (.newStr [7]) .strict none,
    .update (.newList .str []) .strict none]).steps 6).context.table

theorem slots_equate_twins : twins.slotEq (.str (some ⟨2, 0⟩)) (.str (some ⟨3, 0⟩)) = .ok true ∧
    twins.slotEq (.str (some ⟨3, 0⟩)) (.str (some ⟨4, 0⟩)) = .error (.wrongPayload .str .list) ∧
    twins.slotEq (.str (some ⟨2, 0⟩)) (.str (some ⟨4, 0⟩)) = .error (.wrongPayload .str .list) := by
  have equal : twins.slotEq (.str (some ⟨2, 0⟩)) (.str (some ⟨3, 0⟩)) = .ok true := by decide
  have fails : twins.slotEq (.str (some ⟨3, 0⟩)) (.str (some ⟨4, 0⟩)) =
      .error (.wrongPayload .str .list) := by decide
  exact ⟨equal, fails, (((slots_equate twins).congr _ _ equal _).1).trans fails⟩

end Table

end ScopedHeap
