import ScopedHeap.Proofs.Endings
import ScopedHeap.Proofs.Lifecycle
import ScopedHeap.Proofs.Statistics

/-!
# Teardown empties a context

A teardown leaves the open scopes one after the other, whatever hooks do meanwhile: it stops only at
the root (`Machine.Completes.unwound`). Then it drains the root. If the scripts of hooks are
balanced, each destruction comes back to the root, so that nothing waits anywhere in the end
(`Machine.Completes.drained`). What is live then is given up without running a hook, and nothing
but static records is left (`History.Emptied`).
-/
namespace ScopedHeap

open Context

/-- The tasks by which a teardown leaves the scopes. -/
def Task.Unwinds : Task → Prop
  | .unwind | .exitScope _ _ .unwind => True
  | _ => False

section Turning

variable {cx cx' : Context} {grants : Grants} {b : Bindings} {t : Task} {ds : List Deed}
  {new : List Task} {fault : Option Fault}

theorem Turn.unwinds (turn : Turn cx grants b t ds cx' new fault) (h : t.Unwinds)
    (sound : cx.Sound) :
    new = [] ∧ cx'.scopes.depth = 1 ∨ ∃ front t, new = front ++ [t] ∧ t.Unwinds := by
  cases turn with
  | asked | unbound | changed | refused | outermost | popping | unhooked | hooked | opened
  | scripted | released | releasing | stuck | buried | finished | closing | mismatched | draining
  | drained | swept => exact h.elim
  | unwound root => exact Or.inl ⟨rfl, sound.numbered.current_eq.symm.trans root⟩
  | unwinding => exact Or.inr ⟨[], _, rfl, trivial⟩
  | @exiting _ _ after d => cases after with
    | unwind => exact Or.inr ⟨d.tasks, _, rfl, trivial⟩
    | answer | blockEnd => exact h.elim
  | @left _ _ after => cases after with
    | unwind => exact Or.inr ⟨[], _, rfl, trivial⟩
    | answer | blockEnd => exact h.elim
  | bottom _ root =>
    refine Or.inl ⟨rfl, ?_⟩
    rw [ScopeStack.depth, root]
    rfl

theorem Turn.drain_cases (turn : Turn cx grants b .drain ds cx' new fault) :
    (∃ d, Move cx (.drain d) cx' ∧ new = d.tasks ++ [.drain]) ∨
      new = [] ∧ cx' = cx ∧ cx.scopes.active.queue = [] := by
  cases turn with
  | draining _ move => exact Or.inl ⟨_, move, rfl⟩
  | drained empty => exact Or.inr ⟨rfl, rfl, empty⟩

theorem Turn.sweep_cases (turn : Turn cx grants b .sweep ds cx' new fault) (sound : cx.Sound) :
    new = [] ∧ cx'.table.live = [] ∧ cx'.scopes = cx.scopes ∧
      cx'.counters.leaked = cx.counters.leaked + cx.table.live.length := by
  cases turn with
  | swept path sweeps all =>
    obtain ⟨_, _, scopes, leaked⟩ := path.swept sound sweeps
    rw [all] at leaked
    exact ⟨rfl, (path.live_of_sweep sound sweeps all).2, scopes, leaked⟩

theorem Turn.sweep_not_mem (turn : Turn cx grants b t ds cx' new fault) : .sweep ∉ new := by
  intro mem
  cases turn with
  | asked | unbound | refused | outermost | unhooked | hooked | released | stuck | buried | finished
  | bottom | mismatched | unwound | drained | swept => cases mem
  | popping | closing | unwinding => cases List.mem_singleton.mp mem
  | opened =>
    rcases List.mem_append.mp mem with body | last
    · obtain ⟨c, _, perform⟩ := List.mem_map.mp body
      cases perform
    · cases List.mem_singleton.mp last
  | scripted =>
    obtain ⟨c, _, perform⟩ := List.mem_map.mp mem
    cases perform
  | @left _ _ after =>
    cases after with
    | answer | blockEnd => cases mem
    | unwind => cases List.mem_singleton.mp mem
  | changed | releasing =>
    rcases List.mem_append.mp mem with cascade | last
    · exact Doomed.not_plain_elim _ _ cascade trivial
    · cases List.mem_singleton.mp last
  | exiting | draining =>
    rcases List.mem_append.mp mem with cascade | last
    · exact Doomed.not_plain_tasks _ _ cascade trivial
    · cases List.mem_singleton.mp last

theorem Context.Move.leaked_eq {d : Deed} (move : Move cx d cx') (keeps : ∀ x, d ≠ .sweep x) :
    cx'.counters.leaked = cx.counters.leaked := by
  cases move with
  | sweep => exact absurd rfl (keeps _)
  | raise | raiseStatic | lower | lowerStatic | keep | defer | destroy | drain | allocate
  | allocateContainer | allocateStatic | hook | store | enter | leave | bury => rfl

theorem Context.Path.leaked_eq (path : Path cx ds cx') (keeps : ∀ d ∈ ds, ∀ x, d ≠ .sweep x) :
    cx'.counters.leaked = cx.counters.leaked := by
  induction path with
  | refl => rfl
  | move first _ ih =>
    rw [ih fun d hd => keeps d (List.mem_cons_of_mem _ hd)]
    exact first.leaked_eq (keeps _ List.mem_cons_self)

theorem Turn.leaked_eq (turn : Turn cx grants b t ds cx' new fault) (keeps : t ≠ .sweep) :
    cx'.counters.leaked = cx.counters.leaked := by
  apply turn.path.leaked_eq
  rintro d hd x rfl
  have doomed := turn.doomed?_of_removed keeps hd rfl
  have takes := turn.takes keeps
  rw [doomed] at takes
  obtain ⟨es, shape, steady⟩ := takes
  have kept : .sweep x ∉ es := by
    intro he
    cases (steady _ he).1
  rcases shape with rfl | rfl
  · simp [kept] at hd
  · simp [kept] at hd

end Turning

namespace Machine

variable {m : Machine} {front rest : List Task} {n : Nat}

theorem Completes.unwound (h : Completes rest m n) (sound : m.context.Sound)
    (agenda : m.agenda = .unwind :: rest) : (m.steps n).depth = 1 := by
  have last : m.agenda = [] ++ .unwind :: rest := agenda
  refine h.last (K := Task.Unwinds) (P := fun m => m.depth = 1) sound last trivial ?_
  intro m t sound running next unwinds
  obtain ⟨_, new, turn, agenda⟩ := turn_step sound running next
  rcases turn.unwinds unwinds sound with ⟨rfl, root⟩ | ⟨front, t, rfl, unwinds⟩
  · exact Or.inr (Or.inl ⟨root, agenda⟩)
  · rw [List.append_assoc] at agenda
    exact Or.inr (Or.inr ⟨front, t, agenda, unwinds⟩)

/-- Draining ends at the level where it began, with nothing left in its queue. -/
theorem Completes.drained (h : Completes rest m n) (sound : m.context.Sound)
    (agenda : m.agenda = .drain :: rest) (hooks : m.HooksBalanced n) :
    (m.steps n).depth = m.depth ∧ (m.steps n).context.scopes.active.queue = [] := by
  induction n using Nat.strong_induction_on generalizing m with
  | _ n ih =>
    obtain ⟨ds, new, turn, next⟩ := turn_step sound h.running agenda
    obtain ⟨n, rfl, later⟩ := h.next agenda
    rcases turn.drain_cases with ⟨d, move, rfl⟩ | ⟨rfl, same, empty⟩
    · rw [List.append_assoc] at next
      obtain ⟨a, b, rfl, first, second⟩ := later.split (sound_step sound) next
      have calm := hooks.tail
      have level : m.step.depth = m.depth := move.depth_eq (by simp) (by simp)
      have balanced := first.balanced (sound_step sound) next d.not_plain_tasks calm.left
      obtain ⟨back, empty⟩ := ih b (by omega) second (sound_steps (sound_step sound) a)
        first.ended.1 calm.right
      rw [← steps_add] at back empty
      exact ⟨back.trans (balanced.level.trans level), empty⟩
    · obtain rfl := later.eq_zero next
      have still : (m.steps 1).context = m.context := same
      rw [depth, depth, still]
      exact ⟨rfl, empty⟩

/-- What stands behind is swept last, so no record is given up before. -/
theorem Completes.leaked_eq (h : Completes rest m n) (sound : m.context.Sound)
    (agenda : m.agenda = front ++ rest) (keeps : .sweep ∉ front) :
    (m.steps n).context.counters.leaked = m.context.counters.leaked := by
  induction h generalizing front with
  | done => rfl
  | @step m t others n longer running later ih =>
    obtain rfl : front = t :: others := List.append_cancel_right (agenda.symm.trans longer)
    obtain ⟨_, new, turn, next⟩ := turn_step sound running longer
    rw [← List.append_assoc] at next
    have ne : t ≠ .sweep := by
      rintro rfl
      exact keeps List.mem_cons_self
    refine (ih (sound_step sound) next ?_).trans (turn.leaked_eq ne)
    rw [List.mem_append, not_or]
    exact ⟨turn.sweep_not_mem, fun mem => keeps (List.mem_cons_of_mem t mem)⟩

theorem step_of_sweep (sound : m.context.Sound) (running : m.fault = none)
    (agenda : m.agenda = .sweep :: rest) : m.step.agenda = rest ∧ m.step.context.table.live = [] ∧
      m.step.context.scopes = m.context.scopes ∧
      m.step.context.counters.leaked = m.context.counters.leaked + m.context.table.live.length := by
  obtain ⟨_, new, turn, next⟩ := turn_step sound running agenda
  obtain ⟨rfl, swept⟩ := turn.sweep_cases sound
  exact ⟨next, swept⟩

theorem Completes.swept (h : Completes rest m n) (sound : m.context.Sound)
    (agenda : m.agenda = .sweep :: rest) : n = 1 := by
  obtain ⟨k, rfl, later⟩ := h.next agenda
  rw [later.eq_zero (step_of_sweep sound h.running agenda).1]

/-- The agenda of a teardown. There is nothing to unwind at the root. -/
theorem agenda_closing (m : Machine) : ∃ unwinding,
    m.closing.agenda = unwinding ++ ([.drain] ++ [.sweep]) ∧
      (unwinding = [.unwind] ∨ unwinding = [] ∧ m.depth = 1) := by
  by_cases deep : 1 < m.context.scopes.depth
  · exact ⟨[.unwind], by simp [closing, deep], Or.inl rfl⟩
  · have pos : 0 < m.depth := Nat.succ_pos _
    have low : m.depth ≤ 1 := Nat.le_of_not_lt deep
    exact ⟨[], by simp [closing, deep], Or.inr ⟨rfl, Nat.le_antisymm low pos⟩⟩

theorem waiting_eq_nil (root : m.depth = 1) (empty : m.context.scopes.active.queue = []) :
    m.context.scopes.waiting = [] := by
  have outer : m.context.scopes.outer = [] := List.length_eq_zero_iff.mp (Nat.succ.inj root)
  rw [ScopeStack.waiting, ScopeStack.stack_eq, outer, List.flatMap_singleton, empty]

/-- A teardown that is not stopped comes to its sweep, at the root and with nothing waiting, and has
given up no record by then. -/
theorem Completes.descended (h : Completes [] m.closing n) (sound : m.context.Sound)
    (hooks : m.closing.HooksBalanced n) :
    ∃ k, n = k + 1 ∧ (m.closing.steps k).agenda = [.sweep] ∧ (m.closing.steps k).fault = none ∧
      (m.closing.steps k).depth = 1 ∧ (m.closing.steps k).context.scopes.waiting = [] ∧
      (m.closing.steps k).context.counters.leaked = m.context.counters.leaked := by
  have sound' : m.closing.context.Sound := sound
  obtain ⟨unwinding, agenda, shape⟩ := m.agenda_closing
  have whole : m.closing.agenda = (unwinding ++ [.drain]) ++ ([.sweep] ++ []) := by
    rw [agenda, List.append_assoc]
    rfl
  obtain ⟨k, b, rfl, before, sweep⟩ := h.split sound' whole
  obtain ⟨last, running⟩ := before.ended
  obtain ⟨a, d, rfl, unwound, drained⟩ := before.split sound' agenda
  have root : (m.closing.steps a).depth = 1 := by
    rcases shape with rfl | ⟨rfl, root⟩
    · exact unwound.unwound sound' agenda
    · obtain rfl := unwound.eq_zero agenda
      exact root
  obtain ⟨back, empty⟩ := drained.drained (sound_steps sound' a) unwound.ended.1 hooks.left.right
  rw [← steps_add] at back empty
  have one := sweep.swept (sound_steps sound' _) last
  refine ⟨a + d, by rw [one], last, running, back.trans root,
    waiting_eq_nil (back.trans root) empty, ?_⟩
  refine before.leaked_eq sound' whole ?_
  rcases shape with rfl | ⟨rfl, _⟩
  · simp
  · simp

end Machine

namespace Context

variable {cx : Context}

theorem Sound.liveCount_eq_length (h : cx.Sound) : cx.table.liveCount = cx.table.live.length := by
  obtain ⟨l, listed, _⟩ := h.listed
  rw [listed.count, listed.live_eq, List.length_map]

theorem Sound.static_of_empty (h : cx.Sound) (live : cx.table.live = [])
    (waiting : cx.scopes.waiting = []) {x : Ref} {record : Record}
    (found : cx.table.find? x = some record) : record.header.state = .static := by
  cases state : record.header.state with
  | static => rfl
  | live =>
    have mem := h.mem_live.mpr ⟨record, found, state⟩
    rw [live] at mem
    cases mem
  | pending =>
    have mem := h.pending x _ (Table.bare_of_find? found) state
    rw [waiting] at mem
    cases mem

end Context

/-- What the counters say when nothing is live, nothing waits, and nothing is left to do. -/
theorem Machine.Reachable.stats_of_empty {m : Machine} (h : m.Reachable) (idle : m.agenda = [])
    (empty : m.context.table.live = []) (waiting : m.context.scopes.waiting = []) :
    m.context.stats.live = 0 ∧ m.context.stats.pending = 0 ∧
      m.context.stats.allocated = m.context.stats.destroyed + m.context.stats.leaked := by
  have live : m.context.table.liveCount = 0 := by
    rw [h.sound.liveCount_eq_length, empty]
    rfl
  have pending : m.context.scopes.pending = 0 := by
    rw [← ScopeStack.length_waiting, waiting]
    rfl
  have tally := h.tally
  rw [idle, total_nil, accounted, stored, live, pending, Nat.zero_add] at tally
  exact ⟨live, pending, tally⟩

namespace History

variable {h : History} {c n : Nat}

theorem closing_ne (closing : h.closing = some c) (ne : c ≠ n) : h.closing ≠ some n := by
  rw [closing]
  exact fun same => ne (Option.some.inj same)

theorem state_closing (closing : h.closing = some c) (k : Nat) :
    h.state (c + 1 + k) = (h.state c).closing.steps k := by
  induction k with
  | zero => exact if_pos closing
  | succ k ih =>
    have later : h.closing ≠ some (c + 1 + k) := closing_ne closing (by omega)
    have next : h.state (c + 1 + (k + 1)) = (h.state (c + 1 + k)).step := if_neg later
    rw [next, ih, Machine.steps_add]
    rfl

theorem unswept (closing : h.closing = some c) (le : n ≤ c) :
    .sweep ∉ (h.state n).agenda ∧ (h.state n).context.counters.leaked = 0 := by
  induction n with
  | zero =>
    refine ⟨?_, rfl⟩
    intro mem
    obtain ⟨_, _, perform⟩ := List.mem_map.mp mem
    cases perform
  | succ n ih =>
    obtain ⟨keeps, none⟩ := ih (Nat.le_of_succ_le le)
    have earlier : h.closing ≠ some n := closing_ne closing (Nat.ne_of_gt le)
    have next : h.state (n + 1) = (h.state n).step := if_neg earlier
    rw [next]
    rcases (h.state n).step_cases with same | ⟨running, t, rest, front⟩
    · rw [same]
      exact ⟨keeps, none⟩
    · obtain ⟨_, new, turn, agenda⟩ := Machine.turn_step (h.sound n) running front
      rw [front] at keeps
      rw [agenda, List.mem_append, not_or]
      have ne : t ≠ .sweep := by
        rintro rfl
        exact keeps List.mem_cons_self
      exact ⟨⟨turn.sweep_not_mem, fun mem => keeps (List.mem_cons_of_mem t mem)⟩,
        (turn.leaked_eq ne).trans none⟩

/-- A record has been in the table all the time between two moments. -/
def Stays (h : History) (x : Ref) (i k : Nat) : Prop :=
  ∀ j, i ≤ j → j ≤ k → (h.record? j x).isSome

variable {x : Ref} {i j k : Nat}

theorem absent_of_destroyed {record : Record} (destroyed : h.destroyed? k = some ⟨x, record⟩) :
    h.record? (k + 1) x = none := by
  cases h.moment k with
  | closing _ _ none | still _ _ none =>
    rw [destroyed] at none
    cases none
  | turn _ _ _ turn _ doomed =>
    rw [destroyed] at doomed
    exact (turn.doomed (h.sound k) doomed.symm).2.2.2.2

/-- From the moment when it was stored, a record that is given up has not been destroyed, and no
script of its own has been run. -/
theorem Stays.silent (stays : h.Stays x i k) (leaks : x ∈ h.leaked k)
    (last : ∀ j, k < j → (h.state j).agenda = []) (le : i ≤ j) : ¬ h.Destroys j x ∧
      ∀ name payload script rest,
        (h.state j).agenda ≠ .runScript x name payload script :: rest := by
  constructor
  · rintro ⟨record, destroyed⟩
    rcases Nat.lt_trichotomy j k with lt | rfl | lt
    · have there := stays (j + 1) (Nat.le_succ_of_le le) lt
      rw [absent_of_destroyed destroyed] at there
      cases there
    · rw [destroyed?_of_leaked leaks] at destroyed
      cases destroyed
    · obtain ⟨t, rest, front, _⟩ := turn_of_destroyed destroyed
      rw [last j lt] at front
      cases front
  · intro name payload script rest front
    obtain ⟨l, record, rfl, destroyed, _⟩ := (h.composed j).owner front
    rcases Nat.lt_or_ge k (l + 1) with lt | ge
    · rw [last (l + 1) lt] at front
      cases front
    · have there := stays (l + 1) le ge
      rw [absent_of_destroyed destroyed] at there
      cases there

/-- A teardown comes to its sweep at moment `k` and leaves the machine `final` behind. -/
structure Emptied (h : History) (k : Nat) (final : Machine) : Prop where
  sweep : (h.state k).agenda = [.sweep]
  /-- Before the sweep all scopes but the root have been left, and nothing waits any more. -/
  root : (h.state k).depth = 1
  drained : (h.state k).context.scopes.waiting = []
  last : h.state (k + 1) = final
  idle : final.agenda = []
  live : final.context.stats.live = 0
  pending : final.context.stats.pending = 0
  depth : final.context.stats.depth = 1
  allocated : final.context.stats.allocated =
    final.context.stats.destroyed + final.context.stats.leaked
  leaked : final.context.stats.leaked = (h.state k).context.table.stateCount .live
  static : ∀ x record, final.context.table.find? x = some record → record.header.state = .static
  /-- What is given up is what was live, and its hooks have not been run. -/
  given : ∀ x, x ∈ h.leaked k ↔ ∃ record, h.record? k x = some record ∧ record.header.state = .live
  silent : ∀ x ∈ h.leaked k, ∀ i j, h.Stays x i k → i ≤ j → ¬ h.Destroys j x ∧
    ∀ name payload script rest, (h.state j).agenda ≠ .runScript x name payload script :: rest

/-- Nothing is left after a sweep at the root with empty queues, if nothing was given up before. -/
theorem emptied (past : ∀ j, k ≤ j → h.closing ≠ some j) (running : (h.state k).fault = none)
    (sweep : (h.state k).agenda = [.sweep]) (root : (h.state k).depth = 1)
    (drained : (h.state k).context.scopes.waiting = [])
    (unleaked : (h.state k).context.counters.leaked = 0) : h.Emptied k (h.state (k + 1)) := by
  have here := past k (Nat.le_refl k)
  have next : h.state (k + 1) = (h.state k).step := if_neg here
  have given : h.leaked k = (h.state k).context.table.live :=
    (if_neg here).trans (Machine.leaks_eq running sweep)
  obtain ⟨idle, empty, scopes, leaked⟩ := Machine.step_of_sweep (h.sound k) running sweep
  rw [← next] at idle empty scopes leaked
  have waiting : (h.state (k + 1)).context.scopes.waiting = [] := by
    rw [scopes]
    exact drained
  obtain ⟨live, pending, allocated⟩ := (h.reachable (k + 1)).stats_of_empty idle empty waiting
  refine ⟨sweep, root, drained, rfl, idle, live, pending, ?_, allocated, ?_, ?_, ?_, ?_⟩
  · exact (congrArg ScopeStack.depth scopes).trans root
  · rw [← (h.sound k).liveCount_eq, (h.sound k).liveCount_eq_length]
    exact leaked.trans (by rw [unleaked, Nat.zero_add])
  · exact fun x record => (h.sound (k + 1)).static_of_empty empty waiting
  · intro x
    rw [given]
    exact (h.sound k).mem_live
  · intro x leaks i j stays le
    refine stays.silent leaks ?_ le
    intro j lt
    rw [(h.still_of_stopped (fun m hm => past m (Nat.le_of_succ_le hm)) (Or.inr idle) lt).1]
    exact idle

/-- A teardown that is not stopped leaves nothing but static records, if the scripts of hooks are
balanced. -/
theorem teardown (closing : h.closing = some c)
    (hooks : ∀ n, Machine.Completes [] (h.state c).closing n →
      (h.state c).closing.HooksBalanced n)
    (runs : (h.state c).tearDown.fault = none) :
    ∃ k, c < k ∧ h.Emptied k (h.state c).tearDown := by
  have sound := h.sound c
  obtain ⟨n, completes, finished⟩ :=
    Machine.completes_of_running (m := (h.state c).closing) sound runs
  obtain ⟨k, rfl, sweep, running, root, drained, unleaked⟩ :=
    completes.descended sound (hooks n completes)
  rw [(unswept closing (Nat.le_refl c)).2] at unleaked
  rw [← state_closing closing] at sweep running root drained unleaked
  have past : ∀ j, c + 1 + k ≤ j → h.closing ≠ some j :=
    fun j le => closing_ne closing (by omega)
  have last : h.state (c + 1 + k + 1) = (h.state c).tearDown :=
    (state_closing closing (k + 1)).trans finished
  refine ⟨c + 1 + k, by omega, ?_⟩
  rw [← last]
  exact emptied past running sweep root drained unleaked

/-- Two scopes are open. A list holds itself and nothing else does, another record is live with a
count of zero, and a third one waits in a queue; its hook runs a block that leaves a record behind.
-/
def abandoned : History where
  settings := {}
  memory := .ample
  program := [.update (.newList .object []) .strict none,
    .update (.listPush (.ref ⟨2, 0⟩) (.object (.ref ⟨2, 0⟩))) .strict none,
    .update (.decrement .heap false (.ref ⟨2, 0⟩)) .strict none,
    .update (.newStr []) .strict none, .setHook (.ref ⟨3, 0⟩) "never" [],
    .update (.decrement .stack true (.ref ⟨3, 0⟩)) .strict none,
    .update .pushScope .strict none, .update (.newStr []) .strict none,
    .setHook (.ref ⟨4, 0⟩) "last" [.block [.update (.newStr []) .strict none]],
    .update .pushScope .strict none,
    .update (.decrement .heap false (.ref ⟨4, 0⟩)) .strict none]
  closing := some 20
  idle := by
    intro n hn
    cases hn
    refine ⟨rfl, ?_⟩
    intro t ht
    exact absurd ht List.not_mem_nil

theorem teardown_abandoned : (abandoned.state 20).context.stats.depth = 3 ∧
    (abandoned.state 20).context.stats.pending = 1 ∧
    (abandoned.state 20).tearDown.context.stats.leaked = 3 ∧
    ∃ k, 20 < k ∧ abandoned.Emptied k (abandoned.state 20).tearDown := by
  have hooks : ∀ n, Machine.Completes [] (abandoned.state 20).closing n →
      (abandoned.state 20).closing.HooksBalanced n := by
    intro n completes
    obtain rfl : n = 15 := completes.eq_of_lengths (by decide +kernel) (by decide +kernel)
    exact Machine.hooksBalanced_of_lengths (by decide +kernel)
  exact ⟨by decide +kernel, by decide +kernel, by decide +kernel,
    teardown rfl hooks (by decide +kernel)⟩

end History

end ScopedHeap
