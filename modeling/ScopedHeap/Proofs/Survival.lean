import ScopedHeap.Proofs.Cascade
import ScopedHeap.Proofs.Contents

/-!
# What outlives a cascade

Where no hook is a script, giving up references sets off nothing but further releases. A record that
is counted at least as often as slots and references outside of slots refer to it (`Context.Backed`)
stays so while references in flight are given up, since each of them takes its own count along. What
a slot or a client refers to is therefore still there when a cascade is over
(`Machine.Completes.backed`), and its payload is the one that it had before.
-/
namespace ScopedHeap

/-- The hook of the record, if it has one, is a script. -/
def Record.isScripted (r : Record) : Bool :=
  match r.header.hook with
  | some (.script _ _) => true
  | _ => false

/-- The destruction of a record without a script gives up references that the record held, and does
nothing else. -/
theorem Doomed.tasks_of_unscripted (d : Doomed) (h : d.record.isScripted = false) :
    (∀ t ∈ d.tasks, t.Releases) ∧ ∀ x, (inFlight d.tasks).count x ≤ d.refs.count x := by
  unfold Record.isScripted at h
  unfold Doomed.tasks
  dsimp only
  cases hook : d.record.header.hook with
  | none => simp [Task.Releases, inFlight, Task.inFlight]
  | some hook' =>
    rw [hook] at h
    cases hook' with
    | script name commands => cases h
    | releaseSlots kind =>
      dsimp only
      by_cases same : d.record.payload.kind = kind
      · simp [same, Task.Releases, inFlight, Task.inFlight, Doomed.refs]
      · simp [same, Task.Releases, inFlight, Task.inFlight]

namespace Context

variable {cx cx' : Context} {d : Deed} {ds : List Deed} {refs minus plus s : List Ref}
  {doomed : Option Doomed} {x : Ref}

/-- No hook is a script. -/
def Unscripted (cx : Context) : Prop :=
  ∀ r record, cx.table.find? r = some record → record.isScripted = false

instance : Decidable cx.Unscripted := decidable_of_iff _ Table.forall_find?_iff.symm

theorem Unscripted.of_bare {record : Record} (h : cx.Unscripted)
    (shown : cx.table.bare x = some record) : record.isScripted = false := by
  obtain ⟨old, found, rfl⟩ := Table.bare_eq_some_iff.mp shown
  exact h x old found

/-- No change to a context installs a script. -/
theorem Move.unscripted (move : Move cx d cx') (sound : cx.Sound) (h : cx.Unscripted)
    (ordinary : d.Ordinary) : cx'.Unscripted := by
  intro x record found
  have fate := move.fate sound x
  have before : ∀ record, cx.table.bare x = some record → record.isScripted = false :=
    fun _ => h.of_bare
  rw [Table.bare_of_find? found] at fate
  show record.core.isScripted = false
  generalize cx.table.bare x = content at fate before
  generalize record.core = shown at fate
  cases fate with
  | same => exact before _ rfl
  | @raised old | @lowered old | @kept old | @deferred old | @stored old => exact before old rfl
  | hooked => cases ordinary
  | allocated | furnished | settled => rfl

theorem Path.unscripted (path : Path cx ds cx') (sound : cx.Sound) (h : cx.Unscripted)
    (ordinary : ∀ d ∈ ds, d.Ordinary) :
    cx'.Unscripted ∧ ∀ d ∈ ds, ∀ e, d.removed? = some e → e.record.isScripted = false := by
  refine path.along (fun move sound h ordinary => ⟨move.unscripted sound h ordinary, ?_⟩) sound h
    ordinary
  intro e he
  obtain ⟨old, shown, _, hook, _⟩ := move.bare_of_removed sound he
  have before := h.of_bare shown
  rw [Record.isScripted] at before ⊢
  rw [hook]
  exact before

/-- What slots refer to and what `refs` lists is counted at least as often, unless it is static. -/
structure Backed (cx : Context) (refs : List Ref) : Prop where
  sound : cx.Sound
  unscripted : cx.Unscripted
  enough : ∀ x, cx.table.isStatic x = false →
    cx.table.slotCount x + refs.count x ≤ cx.table.count x

theorem Backed.isSome (h : cx.Backed refs) (used : 0 < cx.table.slotCount x + refs.count x) :
    (cx.table.find? x).isSome = true := by
  cases found : cx.table.find? x with
  | some record => rfl
  | none =>
    have enough := h.enough x (by rw [Table.isStatic, found, Option.any_none])
    rw [Table.count, found, Option.elim_none] at enough
    omega

/-- Changes that take as many references of `refs` as they spend leave the others backed, and with
them all that is left to do for a record that has been destroyed. -/
theorem Backed.path (h : cx.Backed refs) (path : Path cx ds cx')
    (conduct : Conduct ds doomed minus plus)
    (fewer : ∀ x, s.count x + minus.count x ≤ refs.count x + plus.count x) :
    (∀ t ∈ doomed.elim [] Doomed.tasks, t.Releases) ∧
      cx'.Backed (inFlight (doomed.elim [] Doomed.tasks) ++ s) := by
  obtain ⟨unscripted, removed⟩ := path.unscripted h.sound h.unscripted conduct.ordinary
  have tasks : (∀ t ∈ doomed.elim [] Doomed.tasks, t.Releases) ∧
      ∀ x, (inFlight (doomed.elim [] Doomed.tasks)).count x ≤
        (doomed.elim [] Doomed.refs).count x := by
    cases doomed with
    | none => simp [inFlight]
    | some e => exact e.tasks_of_unscripted (removed _ conduct.dooms.mem e rfl)
  refine ⟨tasks.1, path.sound h.sound, unscripted, ?_⟩
  intro x counted
  have before := h.enough x (path.isStatic_eq_false h.sound counted)
  have balance := path.balance h.sound x counted
  have spent := conduct.balance x
  have flight := tasks.2 x
  have kept := fewer x
  rw [List.count_append]
  omega

end Context

open Context

/-- Carrying out a part of a destruction keeps the references that are not in flight backed. -/
theorem Turn.backed {cx cx' : Context} {grants : Grants} {b : Bindings} {t : Task} {ds : List Deed}
    {new : List Task} {fault : Option Fault} {refs : List Ref}
    (turn : Turn cx grants b t ds cx' new fault) (releases : t.Releases)
    (h : cx.Backed (t.inFlight ++ refs)) :
    (∀ s ∈ new, s.Releases) ∧ cx'.Backed (inFlight new ++ refs) := by
  cases turn with
  | asked | unbound | changed | refused | outermost | popping | unhooked | hooked | opened
  | scripted | finished | exiting | left | bottom | closing | mismatched | unwound | unwinding
  | draining | drained | swept => cases releases
  | released => exact ⟨by simp, h⟩
  | @releasing r rest doomed w d ran move lowers conduct =>
    obtain ⟨all, backed⟩ := h.path (s := rest ++ refs) (.single move) conduct (by
      intro x
      simp only [Task.inFlight, List.cons_append, List.count_cons, List.count_nil]
      omega)
    refine ⟨?_, ?_⟩
    · intro s hs
      rcases List.mem_append.mp hs with cascade | last
      · exact all s cascade
      · rw [List.mem_singleton.mp last]
        trivial
    · rw [inFlight_concat, List.append_assoc]
      exact backed
  | @stuck r rest e w ran unheld =>
    have enough := h.enough r unheld.1
    rw [unheld.2, Task.inFlight, List.cons_append, List.count_cons_self] at enough
    omega
  | buried => exact ⟨by simp, Move.sound h.sound .bury, h.unscripted, h.enough⟩

namespace Machine

variable {m : Machine} {front rest : List Task} {n : Nat} {refs : List Ref}

/-- When all references in flight have been given up, the others are backed, and no payload is
new. -/
theorem Completes.backed (h : Completes rest m n) (agenda : m.agenda = front ++ rest)
    (releases : ∀ t ∈ front, t.Releases) (backed : m.context.Backed (inFlight front ++ refs)) :
    (m.steps n).context.Backed refs ∧ m.context.Inherits (m.steps n).context := by
  induction h generalizing front with
  | done short =>
    obtain rfl : front = [] := List.append_left_eq_self.mp (agenda.symm.trans short)
    exact ⟨backed, .refl _⟩
  | @step m t front' n agenda' running later ih =>
    obtain rfl : front = t :: front' := List.append_cancel_right (agenda.symm.trans agenda')
    obtain ⟨ds, new, turn, next⟩ := turn_step backed.sound running agenda'
    have first := releases t List.mem_cons_self
    have idle : t.change? m.bindings = none := by
      cases t with
      | releaseRefs | bury => rfl
      | perform | runScript | finish | exitScope | leaveBlock | unwind | drain | sweep =>
        cases first
    rw [inFlight_cons, List.append_assoc] at backed
    obtain ⟨more, after⟩ := turn.backed first backed
    rw [← List.append_assoc] at next
    rw [← List.append_assoc, ← inFlight_append] at after
    obtain ⟨last, inherits⟩ := ih next (fun s hs => (List.mem_append.mp hs).elim (more s)
      fun hs => releases s (List.mem_cons_of_mem _ hs)) after
    exact ⟨last, (turn.inherits backed.sound idle).trans inherits⟩

end Machine

end ScopedHeap
