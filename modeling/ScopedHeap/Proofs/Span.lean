import ScopedHeap.Proofs.Levels
import ScopedHeap.Proofs.Termination

/-!
# Stretches of a run

The agenda is a stack: what tasks give rise to comes to the front, and what stands behind them waits
until all of that is done. `Machine.Completes` says when it is. A stretch of a run is balanced if it
takes off the levels that it puts on and no others. Where the scripts of hooks are balanced, so is
the destruction of a record with all that it sets off (`Machine.Completes.balanced`).
-/
namespace ScopedHeap

open Context

theorem Doomed.not_plain_tasks (d : Doomed) : ∀ t ∈ d.tasks, ¬ t.Plain := by
  intro t ht
  rw [Doomed.tasks_eq] at ht
  rcases List.mem_append.mp ht with hook | last
  · cases shape : d.record.header.hook with
    | none =>
      rw [shape] at hook
      cases hook
    | some hook' =>
      rw [shape, Option.elim_some] at hook
      cases hook' with
      | releaseSlots kind =>
        rw [Hook.tasks] at hook
        split at hook
        · rw [List.mem_singleton.mp hook]
          exact id
        · cases hook
      | script name commands =>
        rw [List.mem_singleton.mp hook]
        exact id
  · rw [List.mem_singleton.mp last]
    exact id

theorem Doomed.not_plain_elim (d : Option Doomed) : ∀ t ∈ d.elim [] Doomed.tasks, ¬ t.Plain := by
  cases d with
  | none => simp
  | some d => exact d.not_plain_tasks

/-- A part of the destruction of a record leads to further such parts and leaves the depth alone,
unless it is a script. -/
theorem Turn.destroys {cx cx' : Context} {grants : Grants} {b : Bindings} {t : Task}
    {ds : List Deed} {new : List Task} {fault : Option Fault}
    (turn : Turn cx grants b t ds cx' new fault) (destroys : ¬ t.Plain) :
    (∃ owner name payload script, t = .runScript owner name payload script) ∨
      (∀ s ∈ new, ¬ s.Plain) ∧ cx'.scopes.depth = cx.scopes.depth := by
  cases turn with
  | asked | unbound | changed | refused | outermost | popping | unhooked | hooked | opened
  | finished | exiting | left | bottom | closing | mismatched | unwound | unwinding | draining
  | drained | swept => exact absurd trivial destroys
  | scripted => exact Or.inl ⟨_, _, _, _, rfl⟩
  | released | stuck | buried => exact Or.inr ⟨by simp, rfl⟩
  | @releasing r rest doomed w d ran move lowers conduct =>
    refine Or.inr ⟨?_, ?_⟩
    · intro s hs
      rcases List.mem_append.mp hs with cascade | last
      · exact Doomed.not_plain_elim doomed s cascade
      · rw [List.mem_singleton.mp last]
        exact id
    · apply move.depth_eq
      · rintro rfl
        exact lowers
      · rintro rfl
        exact lowers

namespace Machine

variable {m : Machine} {front mid rest : List Task} {a b n : Nat}

def depth (m : Machine) : Nat := m.context.scopes.depth

theorem steps_add (m : Machine) (a b : Nat) : m.steps (a + b) = (m.steps a).steps b := by
  induction a generalizing m with
  | zero => rw [Nat.zero_add, steps]
  | succ a ih =>
    rw [Nat.succ_add]
    exact ih m.step

theorem sound_steps (sound : m.context.Sound) (n : Nat) : (m.steps n).context.Sound := by
  induction n generalizing m with
  | zero => exact sound
  | succ n ih => exact ih (sound_step sound)

/-- The tasks in front of `rest` are done after `n` steps, and not before. -/
inductive Completes (rest : List Task) : Machine → Nat → Prop
  | done {m : Machine} (agenda : m.agenda = rest) (running : m.fault = none) :
      Completes rest m 0
  | step {m : Machine} {t : Task} {front : List Task} {n : Nat}
      (agenda : m.agenda = t :: (front ++ rest)) (running : m.fault = none)
      (later : Completes rest m.step n) : Completes rest m (n + 1)

/-- The program is stopped while it is busy with the tasks in front of `rest`. -/
inductive Stops (rest : List Task) : Machine → Prop
  | now {m : Machine} (stopped : m.fault ≠ none) : Stops rest m
  | step {m : Machine} {t : Task} {front : List Task}
      (agenda : m.agenda = t :: (front ++ rest)) (running : m.fault = none)
      (later : Stops rest m.step) : Stops rest m

theorem Completes.ended (h : Completes rest m n) :
    (m.steps n).agenda = rest ∧ (m.steps n).fault = none := by
  induction h with
  | done agenda running => exact ⟨agenda, running⟩
  | step _ _ _ ih => exact ih

theorem Completes.running (h : Completes rest m n) : m.fault = none := by
  cases h with
  | done _ running => exact running
  | step _ running _ => exact running

theorem Completes.eq_zero (h : Completes rest m n) (agenda : m.agenda = rest) : n = 0 := by
  cases h with
  | done => rfl
  | step longer =>
    rw [agenda] at longer
    have length := congrArg List.length longer
    rw [List.length_cons, List.length_append] at length
    omega

theorem Completes.next {t : Task} (h : Completes rest m n) (agenda : m.agenda = t :: rest) :
    ∃ k, n = k + 1 ∧ Completes rest m.step k := by
  cases h with
  | done short =>
    rw [agenda] at short
    exact absurd (congrArg List.length short) (Nat.succ_ne_self _)
  | step _ _ later => exact ⟨_, rfl, later⟩

theorem Completes.longer (h : Completes rest m n) :
    ∀ j < n, rest.length < (m.steps j).agenda.length := by
  induction h with
  | done => exact fun j hj => absurd hj (Nat.not_lt_zero j)
  | step agenda _ _ ih =>
    intro j hj
    cases j with
    | zero =>
      rw [steps, agenda, List.length_cons, List.length_append]
      omega
    | succ j => exact ih j (Nat.lt_of_succ_lt_succ hj)

theorem Completes.eq_of_lengths (h : Completes rest m n)
    (busy : ∀ i < a, rest.length < (m.steps i).agenda.length)
    (short : (m.steps a).agenda.length ≤ rest.length) : n = a := by
  have length : (m.steps n).agenda.length = rest.length := congrArg List.length h.ended.1
  rcases Nat.lt_trichotomy n a with lt | eq | lt
  · exact absurd (busy n lt) (Nat.not_lt_of_le (Nat.le_of_eq length))
  · exact eq
  · exact absurd (h.longer a lt) (Nat.not_lt_of_le short)

theorem Completes.trans {t : Task} {k : Nat} (h : Completes (t :: rest) m n)
    (last : Completes rest (m.steps n) k) :
    Completes rest m (n + k) := by
  induction h with
  | done agenda running =>
    rw [Nat.zero_add]
    exact last
  | @step m s front n agenda running _ ih =>
    rw [Nat.succ_add]
    have longer : m.agenda = s :: ((front ++ [t]) ++ rest) := by
      rw [agenda, List.append_assoc]
      rfl
    exact .step longer running (ih last)

theorem Completes.split (h : Completes rest m n) (sound : m.context.Sound)
    (agenda : m.agenda = front ++ (mid ++ rest)) :
    ∃ a b, a + b = n ∧ Completes (mid ++ rest) m a ∧ Completes rest (m.steps a) b := by
  induction h generalizing front with
  | done short running =>
    have length := congrArg List.length (short.symm.trans agenda)
    rw [List.length_append, List.length_append] at length
    have none : front = [] := List.length_eq_zero_iff.mp (by omega)
    rw [none] at agenda
    exact ⟨0, 0, rfl, .done agenda running, .done short running⟩
  | @step m t others n longer running later ih =>
    cases front with
    | nil => exact ⟨0, n + 1, Nat.zero_add _, .done agenda running, .step longer running later⟩
    | cons t front =>
      rw [List.cons_append] at agenda
      obtain ⟨_, new, _, next⟩ := turn_step sound running agenda
      rw [← List.append_assoc] at next
      obtain ⟨a, b, sum, first, second⟩ := ih (sound_step sound) next
      exact ⟨a + 1, b, by omega, .step agenda running first, second⟩

/-- What the last of the tasks in front leads to. Carrying it out stops the program, or puts another
task of its kind behind all others, or is the end of them. -/
theorem Completes.last {K : Task → Prop} {P : Machine → Prop} {t : Task}
    (h : Completes rest m n) (sound : m.context.Sound) (agenda : m.agenda = front ++ t :: rest)
    (kind : K t)
    (turn : ∀ (m : Machine) (t : Task), m.context.Sound → m.fault = none → m.agenda = t :: rest →
      K t → m.step.fault ≠ none ∨ P m.step ∧ m.step.agenda = rest ∨
        ∃ front t, m.step.agenda = front ++ t :: rest ∧ K t) : P (m.steps n) := by
  induction h generalizing front t with
  | done short =>
    have length := congrArg List.length (short.symm.trans agenda)
    rw [List.length_append, List.length_cons] at length
    omega
  | @step m _ _ n _ running later ih =>
    cases front with
    | nil =>
      rcases turn m t sound running agenda kind with
        stopped | ⟨holds, done⟩ | ⟨front, t, next, kind⟩
      · exact absurd later.running stopped
      · obtain rfl := later.eq_zero done
        exact holds
      · exact ih (sound_step sound) next kind
    | cons s front =>
      rw [List.cons_append] at agenda
      obtain ⟨_, new, _, next⟩ := turn_step sound running agenda
      rw [← List.append_assoc] at next
      exact ih (sound_step sound) next kind

/-- Every operation comes to an end. -/
theorem completes_or_stops (sound : m.context.Sound) (agenda : m.agenda = front ++ rest) :
    Stops rest m ∨ ∃ n, Completes rest m n := by
  induction weight : m.weight using Nat.strong_induction_on generalizing m front with
  | _ w ih =>
    subst weight
    cases running : m.fault with
    | some f => exact Or.inl (.now (by simp [running]))
    | none =>
      cases front with
      | nil => exact Or.inr ⟨0, .done agenda running⟩
      | cons t front =>
        rw [List.cons_append] at agenda
        obtain ⟨_, new, _, next⟩ := turn_step sound running agenda
        have busy : m.isFinished = false := by simp [isFinished, running, agenda]
        rw [← List.append_assoc] at next
        rcases ih m.step.weight (weight_step m busy) (sound_step sound) next rfl with
          stops | ⟨n, completes⟩
        · exact Or.inl (.step agenda running stops)
        · exact Or.inr ⟨n + 1, .step agenda running completes⟩

/-- In `n` steps, no level is taken off that was there before, and all levels put on meanwhile are
taken off again. -/
structure Balanced (m : Machine) (n : Nat) : Prop where
  above : ∀ j ≤ n, m.depth ≤ (m.steps j).depth
  level : (m.steps n).depth = m.depth

theorem balanced_zero (m : Machine) : m.Balanced 0 := by
  refine ⟨?_, rfl⟩
  intro j hj
  rw [Nat.le_zero.mp hj]
  exact Nat.le_refl _

theorem Balanced.append (h : m.Balanced a) (k : (m.steps a).Balanced b) : m.Balanced (a + b) := by
  refine ⟨?_, ?_⟩
  · intro j hj
    rcases Nat.le_total j a with le | le
    · exact h.above j le
    · obtain ⟨i, rfl⟩ := Nat.exists_eq_add_of_le le
      have above := k.above i (by omega)
      rwa [h.level, ← steps_add] at above
  · rw [steps_add, k.level, h.level]

theorem Balanced.cons (level : m.step.depth = m.depth) (h : m.step.Balanced n) :
    m.Balanced (n + 1) := by
  refine ⟨?_, h.level.trans level⟩
  intro j hj
  cases j with
  | zero => exact Nat.le_refl _
  | succ j => exact level ▸ h.above j (Nat.le_of_succ_le_succ hj)

/-- The script of every hook that starts within `n` steps is balanced. -/
def HooksBalanced (m : Machine) (n : Nat) : Prop :=
  ∀ j < n, ∀ owner name payload script rest l,
    (m.steps j).agenda = .runScript owner name payload script :: rest →
    Completes rest (m.steps j) l → (m.steps j).Balanced l

theorem HooksBalanced.left (h : m.HooksBalanced (a + b)) : m.HooksBalanced a :=
  fun j hj => h j (by omega)

theorem HooksBalanced.right (h : m.HooksBalanced (a + b)) : (m.steps a).HooksBalanced b := by
  intro j hj
  rw [← steps_add]
  exact h (a + j) (by omega)

theorem HooksBalanced.tail (h : m.HooksBalanced (n + 1)) : m.step.HooksBalanced n :=
  fun j hj => h (j + 1) (Nat.succ_lt_succ hj)

def startsScript (m : Machine) : Bool :=
  match m.agenda with
  | .runScript _ _ _ _ :: _ => true
  | _ => false

/-- Whether scripts are balanced can be told from the lengths of the agenda. -/
theorem hooksBalanced_of_lengths
    (check : ∀ j < n, (m.steps j).startsScript = true → ∃ l ≤ n,
      (∀ i < l, (m.steps j).agenda.length ≤ ((m.steps j).steps i).agenda.length) ∧
      ((m.steps j).steps l).agenda.length < (m.steps j).agenda.length ∧
      (∀ i ≤ l, (m.steps j).depth ≤ ((m.steps j).steps i).depth) ∧
      ((m.steps j).steps l).depth = (m.steps j).depth) : m.HooksBalanced n := by
  intro j hj owner name payload script rest l agenda completes
  have starts : (m.steps j).startsScript = true := by
    unfold startsScript
    rw [agenda]
  have length : (m.steps j).agenda.length = rest.length + 1 := congrArg List.length agenda
  obtain ⟨k, _, busy, short, above, level⟩ := check j hj starts
  rw [length] at busy short
  rw [completes.eq_of_lengths busy (Nat.le_of_lt_succ short)]
  exact ⟨above, level⟩

/-- The destruction of records is balanced if the scripts of hooks are. -/
theorem Completes.balanced (h : Completes rest m n) (sound : m.context.Sound)
    (agenda : m.agenda = front ++ rest) (destroys : ∀ t ∈ front, ¬ t.Plain)
    (hooks : m.HooksBalanced n) : m.Balanced n := by
  induction n using Nat.strong_induction_on generalizing m front with
  | _ n ih =>
    cases h with
    | done => exact m.balanced_zero
    | @step _ t front' n agenda' running later =>
      obtain rfl : front = t :: front' := List.append_cancel_right (agenda.symm.trans agenda')
      obtain ⟨_, new, turn, next⟩ := turn_step sound running agenda'
      have others : ∀ s ∈ front', ¬ s.Plain := fun s hs => destroys s (List.mem_cons_of_mem _ hs)
      rcases turn.destroys (destroys t List.mem_cons_self) with
        ⟨owner, name, payload, script, rfl⟩ | ⟨more, level⟩
      · -- a script runs to its end, and then the rest of the destruction follows
        have whole := Completes.step agenda' running later
        have script_first : m.agenda = [.runScript owner name payload script] ++ (front' ++ rest) :=
          agenda'
        obtain ⟨a, b, sum, first, second⟩ := whole.split sound script_first
        have pos : 0 < a := by
          apply Nat.pos_of_ne_zero
          rintro rfl
          have same := first.ended.1.symm.trans agenda'
          exact absurd (congrArg List.length same) (Nat.ne_of_lt (Nat.lt_succ_self _))
        rw [← sum] at hooks ⊢
        have run := hooks 0 (by omega) owner name payload script _ a agenda' first
        exact run.append (ih b (by omega) second (sound_steps sound a) first.ended.1 others
          hooks.right)
      · rw [← List.append_assoc] at next
        refine .cons level (ih n n.lt_succ_self later (sound_step sound) next ?_ hooks.tail)
        intro s hs
        exact (List.mem_append.mp hs).elim (more s) (others s)

end Machine

end ScopedHeap
