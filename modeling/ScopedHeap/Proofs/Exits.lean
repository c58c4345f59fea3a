import ScopedHeap.Proofs.Span

/-!
# How a scope is left

Leaving a scope empties the queue of its level, oldest record first. Each record is destroyed, with
its hook and all that it sets off, before the next one is taken up, and what hooks put off to the
level meanwhile comes after what was there (`Machine.Exited`). If the scripts of hooks are balanced,
none of this touches a level below but for appending to its queue, and nor does anything else that
programs do without taking that level off (`Machine.sparing`, `Machine.Completes.exited`).
-/
namespace ScopedHeap

open Context

/-- Tasks that programs and hooks give rise to, the exit of a scope apart. -/
def Task.Client : Task → Prop
  | .exitScope _ _ _ | .unwind | .drain | .sweep => False
  | _ => True

theorem Task.client_of_not_plain {t : Task} (destroys : ¬ t.Plain) : t.Client := by
  cases t with
  | runScript | releaseRefs | bury => trivial
  | perform | finish | exitScope | leaveBlock | unwind | drain | sweep =>
    exact absurd trivial destroys

/-- A client's task leads to others and drains no queue, or it begins the exit of the active
scope. -/
theorem Turn.serves {cx cx' : Context} {grants : Grants} {b : Bindings} {t : Task} {ds : List Deed}
    {new : List Task} {fault : Option Fault} (turn : Turn cx grants b t ds cx' new fault)
    (client : t.Client) :
    ((∀ s ∈ new, s.Client) ∧ ∀ e, .drain e ∉ ds) ∨
      ∃ after, after ≠ .unwind ∧ new = [.exitScope cx.current 0 after] ∧ cx' = cx ∧
        cx.current ≠ rootScope := by
  cases turn with
  | exiting | left | bottom | unwound | unwinding | draining | drained | swept =>
    exact client.elim
  | asked | unbound | outermost | unhooked | hooked | released | stuck | buried | finished
  | mismatched => exact Or.inl (by simp)
  | popping deep => exact Or.inr ⟨_, by simp, rfl, rfl, deep⟩
  | closing here deep =>
    subst here
    exact Or.inr ⟨_, by simp, rfl, rfl, deep⟩
  | changed _ _ _ completed =>
    refine Or.inl ⟨?_, fun e he => completed.permitted _ he⟩
    intro s hs
    rcases List.mem_append.mp hs with cascade | last
    · exact Task.client_of_not_plain (Doomed.not_plain_elim _ s cascade)
    · rw [List.mem_singleton.mp last]
      trivial
  | refused _ _ _ failed => exact Or.inl ⟨by simp, fun e he => failed.permitted _ he⟩
  | opened =>
    refine Or.inl ⟨?_, by simp⟩
    intro s hs
    rcases List.mem_append.mp hs with body | last
    · obtain ⟨c, _, rfl⟩ := List.mem_map.mp body
      trivial
    · rw [List.mem_singleton.mp last]
      trivial
  | scripted =>
    refine Or.inl ⟨?_, by simp⟩
    intro s hs
    obtain ⟨c, _, rfl⟩ := List.mem_map.mp hs
    trivial
  | releasing _ _ _ conduct =>
    refine Or.inl ⟨?_, fun e he => conduct.ordinary _ he⟩
    intro s hs
    rcases List.mem_append.mp hs with cascade | last
    · exact Task.client_of_not_plain (Doomed.not_plain_elim _ s cascade)
    · rw [List.mem_singleton.mp last]
      trivial

/-- The exit of a scope other than the root takes up the oldest record that waits, or takes off the
level. -/
theorem Turn.exits {cx cx' : Context} {grants : Grants} {b : Bindings} {scope : ScopeId}
    {drained : Nat} {after : AfterExit} {ds : List Deed} {new : List Task} {fault : Option Fault}
    (turn : Turn cx grants b (.exitScope scope drained after) ds cx' new fault)
    (deep : 2 ≤ cx.scopes.depth) (lasts : after ≠ .unwind) :
    (∃ d, Move cx (.drain d) cx' ∧ new = d.tasks ++ [.exitScope scope (drained + 1) after] ∧
      (Task.exitScope scope drained after).doomed? cx grants b = some d) ∨
      Move cx .leave cx' ∧ new = [] := by
  cases turn with
  | @exiting _ _ _ d w ran move =>
    exact Or.inl ⟨d, move, rfl, by simp only [Task.doomed?, Act.doomed?, ran, id]⟩
  | left move => exact Or.inr ⟨move, if_neg lasts⟩
  | bottom _ root =>
    rw [ScopeStack.depth, root] at deep
    exact absurd deep (by decide)

/-- Some program leads to the context. -/
def Context.Reached (cx : Context) : Prop := ∃ m : Machine, m.Reachable ∧ m.context = cx

theorem Context.Reached.sound {cx : Context} (h : cx.Reached) : cx.Sound := by
  obtain ⟨m, reachable, rfl⟩ := h
  exact reachable.sound

/-- What waits was created in a scope that is open. -/
theorem Context.Sound.creationScope_le {cx : Context} (h : cx.Sound) {r : Ref} {record : Record}
    (found : cx.table.find? r = some record) (pending : record.header.state = .pending) :
    record.header.creationScope ≤ cx.scopes.depth := by
  have waits := h.pending r _ (Table.bare_of_find? found) pending
  obtain ⟨level, hlevel, hr⟩ := List.mem_flatMap.mp waits
  obtain ⟨shown, there, _, scope, _⟩ := h.filed level hlevel r hr
  obtain rfl := Option.some.inj ((Table.bare_of_find? found).symm.trans there)
  obtain ⟨i, at_level⟩ := List.mem_iff_getElem?.mp hlevel
  have id : level.id = cx.scopes.depth - i := h.numbered.id_eq at_level
  calc record.header.creationScope
    _ = cx.scopes.depth - i := scope.trans id
    _ ≤ cx.scopes.depth := Nat.sub_le _ _

namespace Machine

variable {m : Machine} {front rest : List Task} {a b d e k n : Nat}

/-- None of `n` steps takes anything from the lowest `d` levels. -/
def Spares (m : Machine) (d n : Nat) : Prop :=
  ∀ j < n, ScopeStack.Spares d (m.steps j).context.scopes (m.steps (j + 1)).context.scopes

theorem spares_zero (m : Machine) (d : Nat) : m.Spares d 0 := fun _ hj => absurd hj
    (Nat.not_lt_zero _)

theorem Spares.cons (now : ScopeStack.Spares d m.context.scopes m.step.context.scopes)
    (h : m.step.Spares d n) : m.Spares d (n + 1) := by
  intro j hj
  cases j with
  | zero => exact now
  | succ j => exact h j (Nat.lt_of_succ_lt_succ hj)

theorem Spares.append (h : m.Spares d a) (k : (m.steps a).Spares d b) : m.Spares d (a + b) := by
  intro j hj
  rcases Nat.lt_or_ge j a with lt | le
  · exact h j lt
  · obtain ⟨i, rfl⟩ := Nat.exists_eq_add_of_le le
    have later := k i (by omega)
    rwa [← steps_add, ← steps_add] at later

theorem Spares.mono (h : m.Spares d n) (le : e ≤ d) : m.Spares e n := fun j hj => (h j hj).mono le

theorem Spares.all (h : m.Spares d n) (le : d ≤ m.depth) :
    ScopeStack.Spares d m.context.scopes (m.steps n).context.scopes := by
  induction n generalizing m with
  | zero => exact .refl le
  | succ n ih =>
    have now := h 0 n.succ_pos
    exact now.trans (ih (fun j hj => h (j + 1) (Nat.succ_lt_succ hj)) now.after)

def queueAt (m : Machine) (k : ScopeId) : List Ref :=
  m.context.scopes.levels[k - 1]?.elim [] Level.queue

/-- What is put off to the level at a position in `n` steps, in that order. -/
def arrivals (k : ScopeId) : Machine → Nat → List Ref
  | _, 0 => []
  | m, n + 1 => (m.step.queueAt k).filter (· ∉ m.queueAt k) ++ m.step.arrivals k n

theorem arrivals_add (m : Machine) (k a b : Nat) :
    m.arrivals k (a + b) = m.arrivals k a ++ (m.steps a).arrivals k b := by
  induction a generalizing m with
  | zero =>
    rw [Nat.zero_add]
    rfl
  | succ a ih =>
    rw [Nat.succ_add, arrivals, arrivals, ih m.step, List.append_assoc]
    rfl

theorem queueAt_depth (m : Machine) : m.queueAt m.depth = m.context.scopes.active.queue := by
  have length : m.context.scopes.outer.reverse.length = m.depth - 1 := List.length_reverse
  rw [queueAt, ScopeStack.levels_eq, List.getElem?_append_right (Nat.le_of_eq length), length,
    Nat.sub_self]
  rfl

theorem queueAt_of_lt (h : m.depth < k) : m.queueAt k = [] := by
  rw [queueAt, List.getElem?_eq_none]
  · rfl
  · rw [ScopeStack.length_levels]
    exact Nat.le_sub_one_of_lt h

theorem nodup_queueAt (sound : m.context.Sound) (k : ScopeId) : (m.queueAt k).Nodup := by
  unfold queueAt
  cases found : m.context.scopes.levels[k - 1]? with
  | none => exact List.nodup_nil
  | some level =>
    have mem := List.mem_reverse.mp (List.mem_of_getElem? found)
    exact (List.sublist_flatten_of_mem (List.mem_map_of_mem mem)).nodup sound.once

theorem prefix_queueAt {u : Machine} (h : ScopeStack.Spares d m.context.scopes u.context.scopes)
    (pos : 0 < d) : m.queueAt d <+: u.queueAt d := by
  have lt : d - 1 < d := Nat.sub_lt pos Nat.one_pos
  have grown := Level.prefix_queue h.levels (d - 1)
  rwa [List.getElem?_take_of_lt lt, List.getElem?_take_of_lt lt] at grown

theorem arrived_eq {queue later : List Ref} (grown : queue <+: later) (nodup : later.Nodup) :
    later = queue ++ later.filter (· ∉ queue) := by
  obtain ⟨new, rfl⟩ := grown
  have apart := List.disjoint_of_nodup_append nodup
  rw [List.filter_append, List.filter_eq_nil_iff.mpr, List.nil_append, List.filter_eq_self.mpr]
  · intro x hx
    exact decide_eq_true fun old => apart old hx
  · intro x hx
    simpa using hx

/-- A queue that is spared grows by what arrives. -/
theorem Spares.queueAt_eq (h : m.Spares d n) (pos : 0 < d) (sound : m.context.Sound) :
    (m.steps n).queueAt d = m.queueAt d ++ m.arrivals d n := by
  induction n generalizing m with
  | zero => exact (List.append_nil _).symm
  | succ n ih =>
    have now : m.queueAt d <+: m.step.queueAt d := prefix_queueAt (h 0 n.succ_pos) pos
    have later := ih (fun j hj => h (j + 1) (Nat.succ_lt_succ hj)) (sound_step sound)
    rw [arrivals, ← List.append_assoc, ← arrived_eq now (nodup_queueAt (sound_step sound) d)]
    exact later

/-- From `m` on, the exit of a scope takes `refs` off the queue of the active level within `n` steps
and leaves it empty. Each of them is taken up when the destruction of the one before is complete,
its hook and all that it sets off included. -/
inductive Drains (scope : ScopeId) (after : AfterExit) (rest : List Task) :
    Nat → Machine → List Ref → Nat → Prop
  | empty {m : Machine} {drained : Nat}
      (agenda : m.agenda = .exitScope scope drained after :: rest)
      (empty : m.context.scopes.active.queue = []) : Drains scope after rest drained m [] 0
  | destroy {m : Machine} {drained l n : Nat} {d : Doomed} {refs : List Ref}
      (agenda : m.agenda = .exitScope scope drained after :: rest)
      (oldest : m.context.scopes.active.queue.head? = some d.ref) (taken : m.doomed? = some d)
      (tasks : m.step.agenda = d.tasks ++ .exitScope scope (drained + 1) after :: rest)
      (destroyed : Completes (.exitScope scope (drained + 1) after :: rest) m.step l)
      (others : Drains scope after rest (drained + 1) (m.step.steps l) refs n) :
      Drains scope after rest drained m (d.ref :: refs) (l + n + 1)

variable {scope : ScopeId} {after : AfterExit} {drained : Nat} {refs : List Ref}

theorem Drains.ended (h : Drains scope after rest drained m refs n) :
    (m.steps n).agenda = .exitScope scope (drained + refs.length) after :: rest ∧
      (m.steps n).context.scopes.active.queue = [] := by
  induction h with
  | empty agenda empty => exact ⟨agenda, empty⟩
  | @destroy m drained l n d refs _ _ _ _ _ _ ih =>
    have whole : m.steps (l + n + 1) = (m.step.steps l).steps n := steps_add m.step l n
    have count : drained + (d.ref :: refs).length = drained + 1 + refs.length := by
      rw [List.length_cons]
      omega
    rw [whole, count]
    exact ih

/-- The exit of the active scope: `refs` are taken off its queue in `n` steps, and the next step
takes off its level. -/
structure Exited (scope : ScopeId) (after : AfterExit) (rest : List Task) (drained : Nat)
    (m : Machine) (refs : List Ref) (n : Nat) : Prop where
  drains : Drains scope after rest drained m refs n
  /-- What was in the queue comes first, and then what has arrived meanwhile. -/
  order : refs = m.queueAt m.depth ++ m.arrivals m.depth n
  balanced : m.Balanced n
  running : (m.steps n).fault = none
  leaves : Move (m.steps n).context .leave (m.steps (n + 1)).context
  spares : m.Spares (m.depth - 1) (n + 1)

theorem Exited.depth_eq (h : Exited scope after rest drained m refs n) :
    (m.steps (n + 1)).depth + 1 = m.depth := by
  rw [← h.balanced.level]
  exact h.leaves.depth_of_leave

/-- An exit that begins with taking up a record goes on like any other. -/
theorem Exited.destroy {l : Nat} {d : Doomed}
    (agenda : m.agenda = .exitScope scope drained after :: rest)
    (move : Move m.context (.drain d) m.step.context) (taken : m.doomed? = some d)
    (tasks : m.step.agenda = d.tasks ++ .exitScope scope (drained + 1) after :: rest)
    (destroyed : Completes (.exitScope scope (drained + 1) after :: rest) m.step l)
    (sound : m.context.Sound) (balanced : m.step.Balanced l) (spares : m.step.Spares m.depth l)
    (others : Exited scope after rest (drained + 1) (m.step.steps l) refs n) :
    Exited scope after rest drained m (d.ref :: refs) (l + n + 1) := by
  have level : m.step.depth = m.depth := move.depth_eq (by simp) (by simp)
  have back : (m.step.steps l).depth = m.depth := balanced.level.trans level
  have later : ∀ j, m.steps (l + j + 1) = (m.step.steps l).steps j := steps_add m.step l
  have pos : 0 < m.depth := Nat.succ_pos _
  -- the queue loses its first record, and then it grows by what arrives
  have queue : m.queueAt m.depth = d.ref :: m.step.queueAt m.depth := by
    rw [queueAt_depth, ← level, queueAt_depth]
    exact move.queue_of_drain
  have nothing : (m.step.queueAt m.depth).filter (· ∉ m.queueAt m.depth) = [] := by
    rw [List.filter_eq_nil_iff, queue]
    intro x hx
    simpa using fun _ => hx
  have grown := spares.queueAt_eq pos (sound_step sound)
  refine ⟨?_, ?_, ?_, ?_, ?_, ?_⟩
  · refine .destroy agenda ?_ taken tasks destroyed others.drains
    rw [move.queue_of_drain]
    rfl
  · rw [others.order, back, grown, queue, arrivals, nothing, List.nil_append, arrivals_add,
      List.cons_append, List.append_assoc]
  · exact .cons level (balanced.append others.balanced)
  · rw [later n]
    exact others.running
  · rw [later n, Nat.add_assoc l n 1, later (n + 1)]
    exact others.leaves
  · have below := others.spares
    rw [back] at below
    have le := Nat.sub_le m.depth 1
    refine .cons (move.spares le ?_ ?_) ((spares.mono le).append below)
    · exact le.trans (Nat.le_of_eq level.symm)
    · exact fun _ _ => Nat.sub_lt pos Nat.one_pos

/-- Whatever clients do in `n` steps takes nothing from levels that stay on the stack. -/
def Sparing (n : Nat) : Prop :=
  ∀ (m : Machine) (front rest : List Task) (d : Nat), m.context.Sound → m.agenda = front ++ rest →
    (∀ t ∈ front, t.Client) → Completes rest m n → m.HooksBalanced n →
    (∀ j ≤ n, d ≤ (m.steps j).depth) → m.Spares d n

theorem Completes.exited_of_sparing (h : Completes rest m n) (sparing : ∀ l < n, Sparing l)
    (sound : m.context.Sound) (agenda : m.agenda = .exitScope scope drained after :: rest)
    (lasts : after ≠ .unwind) (deep : 2 ≤ m.depth) (hooks : m.HooksBalanced n) :
    ∃ refs k, n = k + 1 ∧ Exited scope after rest drained m refs k := by
  induction n using Nat.strong_induction_on generalizing m drained with
  | _ n ih =>
    have running := h.running
    obtain ⟨n, rfl, later⟩ := h.next agenda
    obtain ⟨ds, new, turn, next⟩ := turn_step sound running agenda
    have taken := doomed?_eq running agenda
    rcases turn.exits deep lasts with ⟨d, move, rfl, doomed⟩ | ⟨move, rfl⟩
    · rw [List.append_assoc] at next
      obtain ⟨a, b, rfl, first, second⟩ := later.split (sound_step sound) next
      have level : m.step.depth = m.depth := move.depth_eq (by simp) (by simp)
      have calm := hooks.tail
      have balanced := first.balanced (sound_step sound) next d.not_plain_tasks calm.left
      have spares : m.step.Spares m.depth a := by
        refine sparing a (by omega) m.step d.tasks _ m.depth (sound_step sound) next ?_ first
          calm.left ?_
        · exact fun t ht => Task.client_of_not_plain (d.not_plain_tasks t ht)
        · intro j hj
          exact level ▸ balanced.above j hj
      obtain ⟨refs, k, rfl, others⟩ := ih b (by omega) second (fun l hl => sparing l (by omega))
        (sound_steps (sound_step sound) a) first.ended.1
        (deep.trans (Nat.le_of_eq (balanced.level.trans level).symm)) calm.right
      exact ⟨_, _, rfl, .destroy agenda move (taken.trans doomed) next first sound balanced spares
        others⟩
    · obtain rfl : n = 0 := later.eq_zero next
      refine ⟨[], 0, rfl, ?_, ?_, m.balanced_zero, running, move, ?_⟩
      · exact .empty agenda move.queue_of_leave
      · rw [queueAt_depth, move.queue_of_leave]
        rfl
      · have level := move.depth_of_leave
        exact .cons (move.spares (Nat.sub_le _ _) (Nat.le_of_eq (Nat.sub_eq_of_eq_add level.symm))
          (by simp)) (m.step.spares_zero _)

/-- Clients take nothing from levels that stay on the stack, if the scripts of hooks are
balanced. -/
theorem sparing (n : Nat) : Sparing n := by
  induction n using Nat.strong_induction_on with
  | _ n ih =>
    intro m front rest d sound agenda clients h hooks above
    cases h with
    | done => exact m.spares_zero d
    | @step _ t front' n agenda' running later =>
      obtain rfl : front = t :: front' := List.append_cancel_right (agenda.symm.trans agenda')
      obtain ⟨ds, new, turn, next⟩ := turn_step sound running agenda'
      have others : ∀ s ∈ front', s.Client := fun s hs => clients s (List.mem_cons_of_mem _ hs)
      have before : d ≤ m.depth := above 0 (Nat.zero_le _)
      have after : d ≤ m.step.depth := above 1 (Nat.succ_pos n)
      have higher : ∀ j ≤ n, d ≤ (m.step.steps j).depth :=
        fun j hj => above (j + 1) (Nat.succ_le_succ hj)
      rcases turn.serves (clients t List.mem_cons_self) with
        ⟨more, keeps⟩ | ⟨after', lasts, rfl, same, deep⟩
      · rw [← List.append_assoc] at next
        refine .cons (turn.spares before after fun e he => absurd he (keeps e)) ?_
        refine ih n n.lt_succ_self m.step _ rest d (sound_step sound) next ?_ later hooks.tail
          higher
        intro s hs
        exact (List.mem_append.mp hs).elim (more s) (others s)
      · -- the scope is left, which takes off its level: so that level is above the lowest `d`
        obtain ⟨a, b, rfl, first, second⟩ := later.split (sound_step sound) next
        have calm := hooks.tail
        have level : m.step.depth = m.depth := congrArg (·.scopes.depth) same
        obtain ⟨refs, k, rfl, exited⟩ := first.exited_of_sparing (fun l hl => ih l (by omega))
          (sound_step sound) next lasts (level ▸ sound.two_le_depth deep) calm.left
        have low := higher (k + 1) (by omega)
        have deeper := exited.depth_eq
        have still : ScopeStack.Spares d m.context.scopes m.step.context.scopes := by
          rw [same]
          exact .refl before
        refine .cons still ?_
        refine (exited.spares.mono (by omega)).append ?_
        refine ih b (by omega) _ front' rest d (sound_steps (sound_step sound) _) first.ended.1
          others second calm.right ?_
        intro j hj
        rw [← steps_add]
        exact higher (k + 1 + j) (by omega)

theorem Completes.exited (h : Completes rest m n) (sound : m.context.Sound)
    (agenda : m.agenda = .exitScope scope drained after :: rest) (lasts : after ≠ .unwind)
    (deep : 2 ≤ m.depth) (hooks : m.HooksBalanced n) :
    ∃ refs k, n = k + 1 ∧ Exited scope after rest drained m refs k :=
  h.exited_of_sparing (fun l _ => sparing l) sound agenda lasts deep hooks

theorem exitScope_of_empty (sound : m.context.Sound) (empty : m.context.scopes.active.queue = [])
    (deep : 2 ≤ m.depth) (scope : ScopeId) (drained : Nat) (after : AfterExit) :
    ∃ before : Machine, m.exitScope scope drained after = before.afterExit after (.ok ()) := by
  unfold exitScope
  apply act_cases (Q := fun u => ∃ before : Machine, u = before.afterExit after (.ok ()))
    (ends_unearthNext_move sound)
  · intro e w _ impossible
    exact impossible.elim
  · intro next w _ h
    cases next with
    | some d =>
      have queue := Move.queue_of_drain h
      rw [empty] at queue
      cases queue
    | none =>
      have same : (m.settle w).context = m.context := h.1
      apply act_cases (m := m.settle w) (Q := fun u => ∃ before : Machine,
        u = before.afterExit after (.ok ())) (P := Act.Either (fun _ _ => True) fun _ => False)
      · refine Act.ends_exitScope (fun e root => ?_) fun _ _ _ => trivial
        replace root : (m.settle w).context.scopes.outer = [] := root
        rw [same] at root
        rw [depth, ScopeStack.depth, root] at deep
        exact absurd deep (by decide)
      · intro e v _ impossible
        exact impossible.elim
      · exact fun u v _ _ => ⟨_, rfl⟩

theorem step_of_popScope {site : Site} {policy : Policy} (running : m.fault = none)
    (agenda : m.agenda = .perform site (.popScope policy) :: rest)
    (deep : m.context.current ≠ rootScope) :
    m.step = { m with
      agenda := .exitScope m.context.current 0 (.answer ⟨site, policy, none⟩) :: rest } := by
  rw [step_eq running agenda]
  exact if_neg deep

theorem Exited.answered (h : Exited scope after rest drained m refs n) (sound : m.context.Sound) :
    ∃ before : Machine, m.steps (n + 1) = before.afterExit after (.ok ()) := by
  obtain ⟨agenda, empty⟩ := h.drains.ended
  have deep : 2 ≤ (m.steps n).depth := by
    have left := h.leaves.depth_of_leave
    have pos : 0 < (m.steps (n + 1)).context.scopes.depth := Nat.succ_pos _
    unfold depth
    omega
  rw [steps_add]
  show ∃ before : Machine, (m.steps n).step = before.afterExit after (.ok ())
  rw [step_eq h.running agenda]
  exact exitScope_of_empty (m := { m.steps n with agenda := rest }) (sound_steps sound n) empty deep
    _ _ _

theorem Exited.order_eq (h : Exited scope after rest drained m refs n) :
    refs = m.queueAt m.depth ++ m.arrivals m.depth (n + 1) := by
  have gone : (m.steps n).step.queueAt m.depth = [] := by
    apply queueAt_of_lt
    rw [← h.depth_eq, steps_add]
    exact Nat.lt_succ_self _
  rw [arrivals_add, arrivals, gone, List.filter_nil, arrivals, List.append_nil, List.append_nil]
  exact h.order

theorem Exited.levels (h : Exited scope after rest drained m refs n) :
    List.Forall₂ Level.Extends m.context.scopes.levels.dropLast
      (m.steps (n + 1)).context.scopes.levels := by
  have spared := (h.spares.all (Nat.sub_le _ _)).levels
  have length : (m.steps (n + 1)).context.scopes.levels.length = m.depth - 1 := by
    rw [ScopeStack.length_levels]
    exact Nat.eq_sub_of_add_eq h.depth_eq
  have low : m.context.scopes.levels.take (m.depth - 1) = m.context.scopes.levels.dropLast := by
    rw [List.dropLast_eq_take, ScopeStack.length_levels]
    rfl
  rwa [low, ← length, List.take_length] at spared

theorem Exited.settled (h : Exited scope after rest drained m refs n) (sound : m.context.Sound)
    {r : Ref} {record : Record} (found : (m.steps (n + 1)).context.table.find? r = some record)
    (pending : record.header.state = .pending) : record.header.creationScope < m.depth := by
  rw [← h.depth_eq]
  exact Nat.lt_succ_of_le ((sound_steps sound (n + 1)).creationScope_le found pending)

/-- Leaving the active scope in order, within `n` steps. -/
structure LeavesInOrder (m : Machine) (reply : Reply) (rest : List Task) (n : Nat) : Prop where
  completes : Completes rest m n
  answered : ∃ before : Machine, m.steps n = before.deliver reply (.ok .done)
  /-- First goes what was in the queue, and then what has been put off to the level meanwhile. -/
  drains : ∃ k, n = k + 2 ∧ Drains m.context.current (.answer reply) rest 0 m.step
    (m.context.scopes.active.queue ++ m.arrivals m.context.current n) k
  levels : List.Forall₂ Level.Extends m.context.scopes.levels.dropLast
    (m.steps n).context.scopes.levels
  settled : ∀ r record, (m.steps n).context.table.find? r = some record →
    record.header.state = .pending → record.header.creationScope < m.context.current

end Machine

namespace Machine

variable {m : Machine} {rest : List Task} {site : Site} {policy : Policy}

/-- Leaving a scope, if it is not stopped, answers that all went well. It destroys the records that
wait for it in the order in which they were put off, each completely before the next, leaves all
other levels in place with what waits there, and nothing that was created in the scope or in a later
one waits afterwards. -/
theorem exit_order (reached : m.context.Reached) (running : m.fault = none)
    (agenda : m.agenda = .perform site (.popScope policy) :: rest)
    (deep : m.context.current ≠ rootScope)
    (hooks : ∀ n, Completes rest m n → m.HooksBalanced n) :
    Stops rest m ∨ ∃ n, m.LeavesInOrder ⟨site, policy, none⟩ rest n := by
  have sound := reached.sound
  have popping := step_of_popScope running agenda deep
  have same : m.step.context = m.context := by rw [popping]
  have level : m.step.depth = m.depth := congrArg (·.scopes.depth) same
  have current : m.context.current = m.depth := sound.numbered.current_eq
  have begun : m.agenda = [.perform site (.popScope policy)] ++ rest := agenda
  rcases completes_or_stops sound begun with stops | ⟨n, whole⟩
  · exact Or.inl stops
  · have calm := hooks n whole
    cases id whole with
    | done short =>
      rw [agenda] at short
      exact absurd (congrArg List.length short) (Nat.succ_ne_self _)
    | @step _ _ _ n _ _ later =>
      obtain ⟨refs, k, rfl, exited⟩ := later.exited (sound_step sound)
        (congrArg Machine.agenda popping) AfterExit.noConfusion (level ▸ sound.two_le_depth deep)
        calm.tail
      -- nothing arrives while the exit is prepared
      have unmoved : m.step.queueAt m.depth = m.queueAt m.depth := by rw [queueAt, queueAt, same]
      have nothing : (m.step.queueAt m.depth).filter (· ∉ m.queueAt m.depth) = [] := by
        rw [unmoved, List.filter_eq_nil_iff]
        exact fun x hx absent => of_decide_eq_true absent hx
      have arrived : m.arrivals m.depth (k + 2) = m.step.arrivals m.depth (k + 1) := by
        rw [arrivals, nothing, List.nil_append]
      have order :
          refs = m.context.scopes.active.queue ++ m.arrivals m.context.current (k + 2) := by
        rw [current, arrived, ← queueAt_depth, ← unmoved, ← level]
        exact exited.order_eq
      have levels := exited.levels
      refine Or.inr ⟨k + 2, whole, exited.answered (sound_step sound), ⟨k, rfl, ?_⟩, ?_, ?_⟩
      · exact order ▸ exited.drains
      · rwa [same] at levels
      · intro r record found pending
        rw [current, ← level]
        exact exited.settled (sound_step sound) found pending

/-- Two records wait for the exit of the second scope, which is next. The script of the first of
them opens a third scope and puts off another record to the second one from there. -/
def lateArrival : Machine :=
  (start {} .ample [.update .pushScope .strict none, .update (.newStr []) .strict none,
    .update (.newStr []) .strict none, .update (.newStr []) .strict none,
    .setHook (.ref ⟨2, 0⟩) "last" [.update .pushScope .strict none,
      .update (.decrement .heap false (.ref ⟨4, 0⟩)) .strict none, .popScope .strict],
    .update .pushScope .strict none, .update (.decrement .heap false (.ref ⟨2, 0⟩)) .strict none,
    .update (.decrement .heap false (.ref ⟨3, 0⟩)) .strict none, .popScope .strict,
    .popScope .strict]).steps 17

theorem exit_order_lateArrival : lateArrival.context.scopes.active.queue = [⟨2, 0⟩, ⟨3, 0⟩] ∧
    lateArrival.arrivals 2 15 = [⟨4, 0⟩] ∧
    (Stops [] lateArrival ∨
      ∃ n, lateArrival.LeavesInOrder ⟨.program, .strict, none⟩ [] n) := by
  have reached : lateArrival.context.Reached := ⟨_, (Reachable.start _ _ _).steps 17, rfl⟩
  have hooks : ∀ n, Completes [] lateArrival n → lateArrival.HooksBalanced n := by
    intro n completes
    obtain rfl : n = 15 := completes.eq_of_lengths (by decide) (by decide)
    exact hooksBalanced_of_lengths (by decide)
  exact ⟨by decide, by decide, exit_order reached rfl rfl (by decide) hooks⟩

end Machine

end ScopedHeap
