import ScopedHeap.Proofs.History

/-!
# What stands on the agenda

When a record has been taken out of the table, the tasks of its hook come to the front of the
agenda, and after them its burial. A script is started by the very next step, so no script ever
waits on the agenda; the references of a container wait only right in front of its burial; and a
burial that waits is that of a record with a hook (`History.composed`).
-/
namespace ScopedHeap

open Context

def Hook.tasks (r : Ref) (payload : Payload) : Hook → List Task
  | .releaseSlots kind => if payload.kind = kind then [.releaseRefs payload.refs] else []
  | .script name commands => [.runScript r name payload commands]

theorem Doomed.tasks_eq (d : Doomed) : d.tasks =
    d.record.header.hook.elim [] (Hook.tasks d.ref d.record.payload) ++
      [.bury d.ref d.record.header.creationScope d.record.header.hook.isSome] := by
  unfold Doomed.tasks
  dsimp only
  cases d.record.header.hook with
  | none => rfl
  | some hook =>
    cases hook with
    | releaseSlots kind =>
      by_cases same : d.record.payload.kind = kind
      · simp [Hook.tasks, same]
      · simp [Hook.tasks, same]
    | script name commands => rfl

/-- Tasks that are no part of the destruction of a record. -/
def Task.Plain : Task → Prop
  | .runScript _ _ _ _ | .releaseRefs _ | .bury _ _ _ => False
  | _ => True

theorem Task.plain_singleton {t : Task} (plain : t.Plain) : ∀ s ∈ [t], s.Plain := by
  intro s hs
  rw [List.mem_singleton.mp hs]
  exact plain

/-- An agenda on which no script waits, references wait in front of the burial of their container,
and the other burials are those of records with hooks. -/
inductive Orderly (Owned : Ref → List Ref → Prop) : List Task → Prop
  | nil : Orderly Owned []
  | plain {t : Task} {rest : List Task} (plain : t.Plain) (ordered : Orderly Owned rest) :
      Orderly Owned (t :: rest)
  | bury {r : Ref} {scope : ScopeId} {rest : List Task} (ordered : Orderly Owned rest) :
      Orderly Owned (.bury r scope true :: rest)
  | release {r : Ref} {scope : ScopeId} {refs : List Ref} {rest : List Task}
      (owned : Owned r refs) (ordered : Orderly Owned rest) :
      Orderly Owned (.releaseRefs refs :: .bury r scope true :: rest)

namespace Orderly

variable {Owned Owned' : Ref → List Ref → Prop} {new rest : List Task}

theorem mono (imp : ∀ r refs, Owned r refs → Owned' r refs) (h : Orderly Owned rest) :
    Orderly Owned' rest := by
  induction h with
  | nil => exact .nil
  | plain plain _ ih => exact .plain plain ih
  | bury _ ih => exact .bury ih
  | release owned _ ih => exact .release (imp _ _ owned) ih

theorem append (plain : ∀ t ∈ new, t.Plain) (h : Orderly Owned rest) :
    Orderly Owned (new ++ rest) := by
  induction new with
  | nil => exact h
  | cons t new ih =>
    exact .plain (plain t List.mem_cons_self) (ih fun t ht => plain t (List.mem_cons_of_mem _ ht))

theorem not_mem_runScript (h : Orderly Owned rest) (owner : Ref) (name : String)
    (payload : Payload) (script : List Command) : .runScript owner name payload script ∉ rest := by
  intro mem
  induction h with
  | nil => cases mem
  | plain plain _ ih =>
    rcases List.mem_cons.mp mem with rfl | mem
    · exact plain
    · exact ih mem
  | bury _ ih => exact ih ((List.mem_cons.mp mem).resolve_left (by simp))
  | release _ _ ih =>
    have mem := (List.mem_cons.mp mem).resolve_left (by simp)
    exact ih ((List.mem_cons.mp mem).resolve_left (by simp))

theorem tail {t : Task} (h : Orderly Owned (t :: rest)) : Orderly Owned rest := by
  cases h with
  | plain _ ordered | bury ordered => exact ordered
  | release _ ordered => exact .bury ordered

end Orderly

/-- The tasks of a turn: those of the record that it dooms, and then others that do not destroy.
Only the references that a container still has stay in front of its burial. -/
theorem Turn.front {cx cx' : Context} {grants : Grants} {b : Bindings} {t : Task} {ds : List Deed}
    {new : List Task} {fault : Option Fault} (turn : Turn cx grants b t ds cx' new fault) :
    ∃ more, new = (t.doomed? cx grants b).elim [] Doomed.tasks ++ more ∧
      (t.doomed? cx grants b ≠ none → fault = none) ∧
      ((∀ t ∈ more, t.Plain) ∨ ∃ r refs, t = .releaseRefs (r :: refs) ∧
        more = [.releaseRefs refs]) := by
  cases turn with
  | asked | outermost | unhooked | released | finished | mismatched | unwound | hooked | buried
  | swept => exact ⟨[], rfl, by simp [Task.doomed?], Or.inl (by simp)⟩
  | unbound read => exact ⟨[], by simp [Task.doomed?, read], by simp [Task.doomed?, read],
      Or.inl (by simp)⟩
  | @changed site _ policy bind c effect w ds read ran path completed =>
    have doomed : (Act.change c).doomed? Effect.doomed ⟨cx, [], grants⟩ = effect.doomed := by
      simp [Act.doomed?, ran]
    refine ⟨[.finish ⟨site, policy, bind⟩ effect.closing effect.answer], ?_, fun _ => rfl,
      Or.inl (Task.plain_singleton trivial)⟩
    simp only [Task.doomed?, read, doomed]
  | @refused _ _ _ _ c e w ds _ read ran path failed =>
    have doomed : (Act.change c).doomed? Effect.doomed ⟨cx, [], grants⟩ = none := by
      simp [Act.doomed?, ran]
    exact ⟨[], by simp [Task.doomed?, read, doomed], by simp [Task.doomed?, read, doomed],
      Or.inl (by simp)⟩
  | popping | closing | unwinding =>
    exact ⟨[_], rfl, fun _ => rfl, Or.inl (Task.plain_singleton trivial)⟩
  | opened =>
    refine ⟨_, rfl, fun _ => rfl, Or.inl ?_⟩
    intro t ht
    rcases List.mem_append.mp ht with body | last
    · obtain ⟨c, _, rfl⟩ := List.mem_map.mp body
      trivial
    · rw [List.mem_singleton.mp last]
      trivial
  | scripted =>
    refine ⟨_, rfl, fun _ => rfl, Or.inl ?_⟩
    intro t ht
    obtain ⟨c, _, rfl⟩ := List.mem_map.mp ht
    trivial
  | @releasing r rest doomed w d ran move lowers conduct =>
    refine ⟨[.releaseRefs rest], ?_, fun _ => rfl, Or.inr ⟨r, rest, rfl, rfl⟩⟩
    simp only [Task.doomed?, Act.doomed?, ran, id]
  | stuck ran unheld =>
    exact ⟨[], by simp [Task.doomed?, Act.doomed?, ran], by simp [Task.doomed?, Act.doomed?, ran],
      Or.inl (by simp)⟩
  | @exiting scope drained after d w ran move =>
    refine ⟨[.exitScope scope (drained + 1) after], ?_, fun _ => rfl,
      Or.inl (Task.plain_singleton trivial)⟩
    simp only [Task.doomed?, Act.doomed?, ran, id, Option.elim_some]
  | @left _ _ after _ move =>
    cases move with
    | leave empty popped =>
      refine ⟨if after = .unwind then [.unwind] else [], ?_, fun _ => rfl, Or.inl ?_⟩
      · simp only [Task.doomed?, Act.doomed?_unearthNext empty, Option.elim_none, List.nil_append]
      · intro t ht
        split at ht
        · rw [List.mem_singleton.mp ht]
          trivial
        · cases ht
  | bottom empty root =>
    exact ⟨[], by simp [Task.doomed?, Act.doomed?_unearthNext empty],
      by simp [Task.doomed?, Act.doomed?_unearthNext empty], Or.inl (by simp)⟩
  | @draining d w ran move =>
    refine ⟨[.drain], ?_, fun _ => rfl, Or.inl (Task.plain_singleton trivial)⟩
    simp only [Task.doomed?, Act.doomed?, ran, id, Option.elim_some]
  | drained empty =>
    exact ⟨[], by simp [Task.doomed?, Act.doomed?_unearthNext empty],
      by simp [Task.doomed?, Act.doomed?_unearthNext empty], Or.inl (by simp)⟩

namespace History

variable (h : History)

/-- The references are among the last of a container that has been destroyed before moment `n`. -/
def Relinquished (n : Nat) (x : Ref) (refs : List Ref) : Prop :=
  ∃ k record, k < n ∧ h.destroyed? k = some ⟨x, record⟩ ∧
    record.header.hook = some (.releaseSlots record.payload.kind) ∧ refs <:+ record.payload.refs

/-- What the agenda is made of at a moment. If the last step has taken out a record, that record
may have a script to run or lack a hook; all else is orderly. -/
inductive Composed (n : Nat) : Prop
  | orderly (ordered : Orderly (h.Relinquished n) (h.state n).agenda)
  | unhooked {k : Nat} {d : Doomed} {rest : List Task} (now : n = k + 1)
      (destroyed : h.destroyed? k = some d) (running : (h.state n).fault = none)
      (agenda : (h.state n).agenda = .bury d.ref d.record.header.creationScope false :: rest)
      (ordered : Orderly (h.Relinquished n) rest)
  | script {k : Nat} {d : Doomed} {name : String} {script : List Command} {rest : List Task}
      (now : n = k + 1) (destroyed : h.destroyed? k = some d)
      (hook : d.record.header.hook = some (.script name script))
      (running : (h.state n).fault = none)
      (agenda : (h.state n).agenda = .runScript d.ref name d.record.payload script ::
        .bury d.ref d.record.header.creationScope true :: rest)
      (ordered : Orderly (h.Relinquished n) rest)

variable {h} {n : Nat} {x : Ref} {refs : List Ref}

theorem Relinquished.succ (owned : h.Relinquished n x refs) : h.Relinquished (n + 1) x refs := by
  obtain ⟨k, record, lt, rest⟩ := owned
  exact ⟨k, record, Nat.lt_succ_of_lt lt, rest⟩

theorem Relinquished.tail {r : Ref} (owned : h.Relinquished n x (r :: refs)) :
    h.Relinquished n x refs := by
  obtain ⟨k, record, lt, destroyed, hook, suffix⟩ := owned
  exact ⟨k, record, lt, destroyed, hook, (List.suffix_cons r refs).trans suffix⟩

theorem Composed.rest (composed : h.Composed n) {t : Task} {rest : List Task}
    (front : (h.state n).agenda = t :: rest) : Orderly (h.Relinquished n) rest := by
  cases composed with
  | orderly ordered =>
    rw [front] at ordered
    exact ordered.tail
  | unhooked _ _ _ agenda ordered =>
    rw [agenda] at front
    exact (List.cons.inj front).2 ▸ ordered
  | script _ _ _ _ agenda ordered =>
    rw [agenda] at front
    exact (List.cons.inj front).2 ▸ .bury ordered

theorem Composed.release (composed : h.Composed n) {rest : List Task}
    (front : (h.state n).agenda = .releaseRefs refs :: rest) :
    ∃ x scope others, rest = .bury x scope true :: others ∧ h.Relinquished n x refs ∧
      Orderly (h.Relinquished n) others := by
  cases composed with
  | orderly ordered =>
    rw [front] at ordered
    cases ordered with
    | plain plain _ => exact plain.elim
    | release owned ordered => exact ⟨_, _, _, rfl, owned, ordered⟩
  | unhooked _ _ _ agenda | script _ _ _ _ agenda =>
    rw [agenda] at front
    cases front

/-- A script at the front of the agenda belongs to the record taken out by the last step. -/
theorem Composed.owner (composed : h.Composed n) {name : String} {payload : Payload}
    {script : List Command} {rest : List Task}
    (front : (h.state n).agenda = .runScript x name payload script :: rest) :
    ∃ k record, n = k + 1 ∧ h.destroyed? k = some ⟨x, record⟩ ∧
      record.header.hook = some (.script name script) ∧ record.payload = payload := by
  cases composed with
  | orderly ordered =>
    rw [front] at ordered
    exact absurd List.mem_cons_self (ordered.not_mem_runScript x name payload script)
  | unhooked _ _ _ agenda =>
    rw [agenda] at front
    cases front
  | script now destroyed hook _ agenda =>
    rw [agenda] at front
    cases front
    exact ⟨_, _, now, destroyed, hook, rfl⟩

theorem Composed.of_destroyed {d : Doomed} {rest : List Task} (destroyed : h.destroyed? n = some d)
    (running : (h.state (n + 1)).fault = none)
    (agenda : (h.state (n + 1)).agenda = d.tasks ++ rest)
    (ordered : Orderly (h.Relinquished (n + 1)) rest) : h.Composed (n + 1) := by
  rw [Doomed.tasks_eq, List.append_assoc] at agenda
  cases hook : d.record.header.hook with
  | none =>
    rw [hook] at agenda
    exact .unhooked rfl destroyed running agenda ordered
  | some hook' =>
    rw [hook] at agenda
    cases hook' with
    | script name script => exact .script rfl destroyed hook running agenda ordered
    | releaseSlots kind =>
      refine .orderly ?_
      rw [agenda]
      by_cases same : d.record.payload.kind = kind
      · rw [Option.elim_some, Hook.tasks, if_pos same]
        refine .release ⟨n, d.record, n.lt_succ_self, destroyed, ?_, List.suffix_rfl⟩ ordered
        rw [hook, same]
      · rw [Option.elim_some, Hook.tasks, if_neg same]
        exact .bury ordered

variable (h) in
theorem composed_zero : h.Composed 0 := by
  refine .orderly ?_
  rw [← List.append_nil (h.state 0).agenda]
  refine Orderly.append ?_ .nil
  intro t ht
  obtain ⟨c, _, rfl⟩ := List.mem_map.mp ht
  trivial

theorem Composed.succ (composed : h.Composed n) : h.Composed (n + 1) := by
  have later : ∀ x refs, h.Relinquished n x refs → h.Relinquished (n + 1) x refs :=
    fun _ _ owned => owned.succ
  cases h.moment n with
  | closing _ next =>
    refine .orderly ?_
    rw [next, ← List.append_nil (h.state n).closing.agenda]
    refine Orderly.append ?_ .nil
    intro t ht
    simp only [Machine.closing, List.mem_append, List.mem_cons, List.not_mem_nil, or_false,
      List.mem_ite_nil_right] at ht
    rcases ht with ⟨_, rfl⟩ | rfl | rfl
    · trivial
    · trivial
    · trivial
  | still stopped next =>
    cases composed with
    | orderly ordered =>
      refine .orderly ?_
      rw [next]
      exact ordered.mono later
    | unhooked _ _ running agenda | script _ _ _ running agenda =>
      rw [running, agenda] at stopped
      rcases stopped with stopped | idle
      · exact absurd rfl stopped
      · cases idle
  | @turn t rest new ds _ front next turn agenda destroyed _ =>
    obtain ⟨more, rfl, runs, others⟩ := turn.front
    -- what comes after the tasks of the doomed record is orderly
    have ordered : Orderly (h.Relinquished (n + 1)) (more ++ rest) := by
      rcases others with plain | ⟨r, refs, rfl, rfl⟩
      · exact ((composed.rest front).mono later).append plain
      · obtain ⟨x, scope, others, rfl, owned, ordered⟩ := composed.release front
        exact .release owned.tail.succ (ordered.mono later)
    rw [← destroyed] at agenda runs
    rw [List.append_assoc] at agenda
    cases doomed : h.destroyed? n with
    | none =>
      rw [doomed] at agenda
      exact .orderly (agenda ▸ ordered)
    | some d =>
      rw [doomed] at agenda runs
      exact .of_destroyed doomed (runs (by simp)) agenda ordered

variable (h) in
theorem composed (n : Nat) : h.Composed n := by
  induction n with
  | zero => exact h.composed_zero
  | succ n ih => exact ih.succ

end History

end ScopedHeap
