import ScopedHeap.Proofs.Contents
import ScopedHeap.Proofs.Emptying

/-!
# Static records

A static record is there to stay. Whatever is done to it, it keeps its reference, its count of one
and its state; it is never put on the live list or into a queue, and a hook that it is given is
never run. Only what it holds can be changed, and that by hand: the truth texts read the same as
long as no payloads are exchanged.
-/
namespace ScopedHeap

open Context

namespace Context

variable {cx cx' : Context} {d : Deed} {ds : List Deed} {x : Ref}

/-- Every static record has a count of one. -/
def Anchored (cx : Context) : Prop :=
  ∀ x record, cx.table.bare x = some record → record.header.creationScope = staticScope →
    record.header.refcount = 1

theorem Move.anchored (move : Move cx d cx') (sound : cx.Sound) (h : cx.Anchored) :
    cx'.Anchored := by
  intro x record shown static
  have fate := move.fate sound x
  have before := h x
  rw [shown] at fate
  generalize cx.table.bare x = old at fate before
  cases fate with
  | same => exact before record rfl static
  | raised tracked | lowered tracked | kept tracked | deferred tracked =>
    exact absurd static tracked
  | @hooked old | @stored old => exact before old rfl static
  | allocated | furnished | settled => rfl

theorem Path.anchored (path : Path cx ds cx') (sound : cx.Sound) (h : cx.Anchored) :
    cx'.Anchored := by
  induction path with
  | refl => exact h
  | move first _ ih => exact ih (first.sound sound) (first.anchored sound h)

theorem Move.boolText_eq (move : Move cx d cx') (b : Bool) : cx'.boolText b = cx.boolText b := by
  cases move <;> rfl

theorem Path.boolText_eq (path : Path cx ds cx') (b : Bool) : cx'.boolText b = cx.boolText b := by
  induction path with
  | refl => rfl
  | move first _ ih => rw [ih, first.boolText_eq]

end Context

namespace Update

def makesStatic : Change → Bool
  | .allocateStatic _ | .staticFrom _ => true
  | _ => false

variable {c : Change} {a : Except Error Effect} {cx : Context} {grants : Grants} {x y : Ref}
  {content : String}

/-- Unless payloads are exchanged, they stay where they are. -/
theorem eq_of_source (plain : c.exchangesPayload = false) (source : c.source a x = some y) :
    y = x := by
  cases a with
  | error => exact (Option.some.inj source).symm
  | ok effect =>
    cases c with
    | staticFrom | swapPayloads => cases plain
    | allocate | allocateStatic | setPayload | writeRaw | pushScope | increment | decrement | newStr
    | newText | newList | listPush | listPop | listSet | newDict | dictInsert | newSet =>
      unfold Update.source at source
      dsimp only at source
      split at source
      · cases source
      · exact (Option.some.inj source).symm

theorem Descends.kind_eq {p q : Payload} (h : c.Descends cx grants a x p)
    (plain : c.exchangesPayload = false) (before : cx.table.payload? x = some q) :
    p.kind = q.kind := by
  cases h with
  | moved source found =>
    rw [eq_of_source plain source, before] at found
    rw [Option.some.inj found]
  | reshaped source found shape =>
    cases before.symm.trans found
    cases shape <;> rfl
  | starved change outcome found starves after =>
    cases before.symm.trans found
    rw [after]
    rfl
  | made source absent made =>
    rw [before] at absent
    cases absent
  | overwritten exchanges =>
    rw [plain] at exchanges
    cases exchanges

theorem Descends.text {p : Payload} (h : c.Descends cx grants a x p)
    (plain : c.exchangesPayload = false)
    (before : cx.table.payload? x = some (.text content)) : p = .text content := by
  cases h with
  | moved source found =>
    rw [eq_of_source plain source, before] at found
    exact (Option.some.inj found).symm
  | reshaped source found shape =>
    rw [before] at found
    cases found
    cases shape
  | starved change outcome found =>
    rw [before] at found
    cases found
  | made source absent made =>
    rw [before] at absent
    cases absent
  | overwritten exchanges =>
    rw [plain] at exchanges
    cases exchanges

end Update

namespace Act

variable {w : Workspace}

def Fixes (a : Except Error Effect) (cx : Context) : Prop :=
  ∀ effect r, a = .ok effect → effect.born? = some r → cx.table.isStatic r = true

theorem ends_allocateStatic_isStatic (p : Payload) (w : Workspace) (sound : w.context.Sound) :
    (allocateStatic p).Ends w (Either (fun r cx => cx.table.isStatic r = true) fun _ => True) := by
  apply ends_allocateStatic
  · exact fun _ => trivial
  · intro grant r table inserted
    have found : table.find? r = some ⟨.forever, p⟩ := by
      rw [(Table.insert_spec sound.vacant inserted).1.find?, if_pos rfl]
    exact (Table.isStatic_of_find? found).mpr rfl

theorem ends_fixes {c : Change} (static : c.makesStatic = true) (sound : w.context.Sound) :
    (Act.change c).Ends w Fixes := by
  have answered {x : Act Ref}
      (h : x.Ends w (Either (fun r cx => cx.table.isStatic r = true) fun _ => True)) :
      (x >>= fun r => pure { answer := .ref r }).Ends w Fixes := by
    refine h.map _ ?_ ?_
    · intro e cx _ effect r he
      cases he
    · intro r cx fixed effect s he born
      cases he
      cases born
      exact fixed
  cases c with
  | allocateStatic contents =>
    exact answered (ends_allocateStatic_isStatic contents.payload w sound)
  | staticFrom s =>
    apply answered
    apply ends_exchangePayload_bind sound Payload.paired_empty (fun _ => trivial)
    exact fun old v handled _ => ends_allocateStatic_isStatic old v (handled.sound sound)
  | allocate | setPayload | swapPayloads | writeRaw | pushScope | increment | decrement | newStr
  | newText | newList | listPush | listPop | listSet | newDict | dictInsert | newSet => cases static

end Act

namespace History

variable (h : History)

def IsStatic (n : Nat) (x : Ref) : Prop :=
  ∃ record, h.record? n x = some record ∧ record.header.state = .static

/-- The record stands outside of all that is done with records. -/
structure Untouched (n : Nat) (x : Ref) : Prop where
  header : ∃ record, h.record? n x = some record ∧ record.header.refcount = 1 ∧
    record.header.creationScope = staticScope ∧ record.header.state = .static ∧
    record.header.prev = none ∧ record.header.next = none
  unlisted : x ∉ (h.state n).context.table.live
  unqueued : ∀ level ∈ (h.state n).context.scopes.levels, x ∉ level.queue
  stays : x ∉ h.removed n
  silent : ∀ name payload script, .runScript x name payload script ∉ (h.state n).agenda

variable {h} {i j n : Nat} {x : Ref}

theorem isStatic_iff : h.IsStatic n x ↔ (h.state n).context.table.isStatic x = true := by
  constructor
  · rintro ⟨record, found, static⟩
    have proper := (h.sound n).proper x _ (Table.bare_of_find? found)
    exact (Table.isStatic_of_find? found).mpr (proper.static.mp static)
  · intro static
    cases found : (h.state n).context.table.find? x with
    | none =>
      rw [Table.isStatic, found] at static
      cases static
    | some record =>
      have proper := (h.sound n).proper x _ (Table.bare_of_find? found)
      exact ⟨record, found, proper.static.mpr ((Table.isStatic_of_find? found).mp static)⟩

theorem IsStatic.later (static : h.IsStatic i x) (le : i ≤ j) : h.IsStatic j x := by
  induction le with
  | refl => exact static
  | @step n _ ih =>
    obtain ⟨ds, path, _⟩ := h.path n
    exact isStatic_iff.mpr (path.isStatic (h.sound n) (isStatic_iff.mp ih))

variable (h) in
theorem anchored (n : Nat) : (h.state n).context.Anchored := by
  induction n with
  | zero =>
    refine h.start_path.anchored (sound_of_empty rfl rfl) ?_
    intro x record shown
    rw [show ({ Context.new h.settings with table := .empty } : Context).table = .empty from rfl,
      bare_empty] at shown
    cases shown
  | succ n ih =>
    obtain ⟨ds, path, _⟩ := h.path n
    exact path.anchored (h.sound n) ih

theorem live_of_leaked (leaks : x ∈ h.leaked n) : x ∈ (h.state n).context.table.live := by
  cases h.moment n with
  | closing _ _ _ leaked | still _ _ _ leaked =>
    rw [leaked] at leaks
    cases leaks
  | @turn t _ _ _ _ _ _ _ _ _ leaked =>
    rw [leaked] at leaks
    by_cases sweeps : t = .sweep
    · rw [sweeps] at leaks
      exact leaks
    · rw [Task.leaks_of_ne sweeps] at leaks
      cases leaks

theorem IsStatic.untouched (static : h.IsStatic n x) : h.Untouched n x := by
  obtain ⟨record, found, state⟩ := static
  have sound := h.sound n
  have bare := Table.bare_of_find? found
  have scope := (sound.proper x _ bare).static.mp state
  obtain ⟨l, listed, loose⟩ := h.threaded n
  have off : x.index ∉ l := by
    intro on
    have live := (sound.index_mem listed bare).mpr on
    cases state.symm.trans live
  have links : (record.header.prev, record.header.next) = (none, none) := by
    refine loose x.index off _ ?_
    rw [Table.links?, Table.recordAt?_of_find? found]
    rfl
  have unlisted : x ∉ (h.state n).context.table.live := by
    intro live
    obtain ⟨other, hother, alive⟩ := sound.mem_live.mp live
    cases found.symm.trans hother
    cases state.symm.trans alive
  refine ⟨⟨record, found, h.anchored n x record.core bare scope, scope, state,
    congrArg Prod.fst links, congrArg Prod.snd links⟩, unlisted, ?_, ?_, ?_⟩
  · intro level hlevel waits
    obtain ⟨other, hother, pending, _⟩ := sound.filed level (List.mem_reverse.mp hlevel) x waits
    cases bare.symm.trans hother
    cases state.symm.trans pending
  · intro gone
    rcases h.mem_removed.mp gone with leaks | ⟨other, destroyed⟩
    · exact unlisted (live_of_leaked leaks)
    · obtain ⟨still, there, _⟩ := IsStatic.later ⟨record, found, state⟩ (Nat.le_succ n)
      rw [absent_of_destroyed destroyed] at there
      cases there
  · intro name payload script waits
    obtain ⟨t, rest, front⟩ := List.exists_cons_of_ne_nil (List.ne_nil_of_mem waits)
    rw [front] at waits
    rcases List.mem_cons.mp waits with rfl | waits
    · obtain ⟨k, gone, rfl, destroyed, _⟩ := (h.composed n).owner front
      rw [absent_of_destroyed destroyed] at found
      cases found
    · exact ((h.composed n).rest front).not_mem_runScript x name payload script waits

variable (h) in
theorem boolText_eq (n : Nat) (b : Bool) :
    (h.state n).context.boolText b = (h.state 0).context.boolText b := by
  induction n with
  | zero => rfl
  | succ n ih =>
    obtain ⟨ds, path, _⟩ := h.path n
    rw [path.boolText_eq, ih]

variable (h) in
theorem isStatic_boolText (b : Bool) : h.IsStatic 0 ((h.state 0).context.boolText b) := by
  cases b with
  | false => exact ⟨_, rfl, rfl⟩
  | true => exact ⟨_, rfl, rfl⟩

/-- As long as no payloads are exchanged, the truth texts read as they did at first. -/
theorem payload?_boolText (plain : ∀ k, k < n → ∀ c ∈ h.change? k, c.exchangesPayload = false)
    (b : Bool) : (h.state n).context.table.payload? ((h.state 0).context.boolText b) =
      some (.text (if b then "true" else "false")) := by
  induction n with
  | zero => cases b <;> rfl
  | succ n ih =>
    have before := ih fun k lt => plain k (Nat.lt_succ_of_lt lt)
    obtain ⟨record, found, _⟩ := (h.isStatic_boolText b).later (Nat.zero_le (n + 1))
    have after := Table.payload?_of_find? found
    rw [after]
    cases change : h.change? n with
    | none => exact (h.inherits change _ _ after).symm.trans before
    | some c =>
      rw [(h.descended change _ _ after).text (plain n (Nat.lt_succ_self n) c change) before]

/-- Over every history, static records are not touched, and the truth texts can be relied on. -/
theorem statics (h : History) :
    (∀ b, h.IsStatic 0 ((h.state 0).context.boolText b)) ∧
    (∀ n c effect r, h.change? n = some c → c.makesStatic = true →
      c.outcome (h.state n).workspace = .ok effect → effect.born? = some r →
      h.IsStatic (n + 1) r) ∧
    (∀ i j x, h.IsStatic i x → i ≤ j → h.Untouched j x) ∧
    ∀ n, (∀ k, k < n → ∀ c ∈ h.change? k, c.exchangesPayload = false) → ∀ b,
      (h.state n).context.answer (.textContent ((h.state n).context.boolText b)) =
        .ok (.text (if b then "true" else "false")) := by
  refine ⟨h.isStatic_boolText, ?_, ?_, ?_⟩
  · intro n c effect r change static outcome born
    have fixes := h.after_change change (Act.ends_fixes static (h.sound n))
    exact isStatic_iff.mpr (fixes effect r outcome born)
  · intro i j x static le
    exact (static.later le).untouched
  · intro n plain b
    rw [h.boolText_eq]
    obtain ⟨record, found, payload⟩ := Table.payload?_eq_some.mp (payload?_boolText plain b)
    rw [answer, Context.payload, Context.find, Table.find_eq_ok_iff.mpr found]
    show (do
      let text ← record.payload.asText
      return Answer.text text : Outcome) = _
    rw [payload]
    rfl

/-- A static record is given a hook, given up by hand and again by a list that refers to it, and
outlives the teardown. -/
def monument : History where
  settings := {}
  memory := .ample
  program := [.update (.allocateStatic (.raw [1])) .strict none,
    .setHook (.ref ⟨2, 0⟩) "never" [.ask .currentScope .checked none],
    .update (.decrement .heap false (.ref ⟨2, 0⟩)) .strict none,
    .update (.newList .object [.object (.ref ⟨2, 0⟩)]) .strict none,
    .update (.decrement .heap false (.ref ⟨3, 0⟩)) .strict none]
  closing := some 12
  idle := by
    intro n hn
    cases hn
    refine ⟨rfl, ?_⟩
    intro t ht
    exact absurd ht List.not_mem_nil

theorem statics_monument : monument.IsStatic 1 ⟨2, 0⟩ ∧ monument.Destroys 7 ⟨3, 0⟩ ∧
    (monument.state 15).agenda = [] ∧ (∀ j, 1 ≤ j → monument.Untouched j ⟨2, 0⟩) ∧
    (monument.state 15).context.answer (.textContent ⟨1, 0⟩) = .ok (.text "true") := by
  have static : monument.IsStatic 1 ⟨2, 0⟩ := ⟨_, rfl, rfl⟩
  have plain : ∀ k, k < 15 → ∀ c ∈ monument.change? k, c.exchangesPayload = false := by
    decide
  exact ⟨static, ⟨_, rfl⟩, rfl, fun j le => monument.statics.2.2.1 1 j ⟨2, 0⟩ static le,
    monument.statics.2.2.2 15 plain true⟩

end History

end ScopedHeap
