import ScopedHeap.Proofs.Exits

/-!
# Well bracketed programs

A program that takes off the levels that it puts on, and no others, leaves the stack as it was, but
for what it puts off to the queues of the levels below. So a block with such a body ends in the
scope that it has entered, and leaving it takes off the very level that entering it put on
(`Machine.bracketing`). -/
namespace ScopedHeap

open Context

theorem Turn.opens {cx cx' : Context} {grants : Grants} {b : Bindings} {site : Site}
    {body : List Command} {ds : List Deed} {new : List Task} {fault : Option Fault}
    (turn : Turn cx grants b (.perform site (.block body)) ds cx' new fault) :
    cx' = { cx with scopes := cx.scopes.push } ∧ fault = none ∧
      new = body.map (.perform site.inner) ++ [.leaveBlock site cx.scopes.push.current] := by
  cases turn with
  | opened => exact ⟨rfl, rfl, rfl⟩

namespace Machine

variable {m : Machine} {front rest : List Task} {site : Site} {d n : Nat}

/-- A balanced stretch of a program leaves the stack as it was, with longer queues perhaps. -/
theorem Completes.framed (h : Completes rest m n) (sound : m.context.Sound)
    (agenda : m.agenda = front ++ rest) (clients : ∀ t ∈ front, t.Client) (balanced : m.Balanced n)
    (hooks : m.HooksBalanced n) :
    List.Forall₂ Level.Extends m.context.scopes.levels (m.steps n).context.scopes.levels := by
  have spares := sparing n m front rest m.depth sound agenda clients h hooks balanced.above
  have levels := (spares.all (Nat.le_refl _)).levels
  have before : m.context.scopes.levels.length = m.depth := m.context.scopes.length_levels
  have after : (m.steps n).context.scopes.levels.length = m.depth :=
    (ScopeStack.length_levels _).trans balanced.level
  rwa [List.take_of_length_le (Nat.le_of_eq before),
    List.take_of_length_le (Nat.le_of_eq after)] at levels

theorem homes_steps (sound : m.context.Sound) (above : ∀ j ≤ n, d ≤ (m.steps j).depth) :
    ((m.steps n).context.scopes.levels.map Level.home).take d =
      (m.context.scopes.levels.map Level.home).take d := by
  induction n generalizing m with
  | zero => rfl
  | succ n ih =>
    have later := ih (sound_step sound) fun j hj => above (j + 1) (Nat.succ_le_succ hj)
    refine later.trans ?_
    rcases m.step_cases with same | ⟨running, t, rest, next⟩
    · rw [same]
    · obtain ⟨ds, new, turn, _⟩ := turn_step sound running next
      exact turn.homes (above 0 (Nat.zero_le _)) (above 1 (Nat.succ_pos n))

end Machine

theorem ScopeStack.activeHome_eq_of_map {s u : ScopeStack}
    (same : u.levels.map Level.home = s.levels.map Level.home) : u.activeHome = s.activeHome := by
  rw [ScopeStack.levels_eq, ScopeStack.levels_eq, List.map_append, List.map_append] at same
  exact List.singleton_inj.mp (List.append_inj' same rfl).2

namespace Machine

variable {m : Machine} {front rest : List Task} {site : Site} {n : Nat}

theorem Balanced.activeHome_eq (h : m.Balanced n) (sound : m.context.Sound) :
    (m.steps n).context.scopes.activeHome = m.context.scopes.activeHome := by
  apply ScopeStack.activeHome_eq_of_map
  have homes := homes_steps sound h.above
  have before : (m.context.scopes.levels.map Level.home).length = m.depth := by
    rw [List.length_map]
    exact m.context.scopes.length_levels
  have after : ((m.steps n).context.scopes.levels.map Level.home).length = m.depth := by
    rw [List.length_map, ScopeStack.length_levels]
    exact h.level
  rwa [List.take_of_length_le (Nat.le_of_eq before),
    List.take_of_length_le (Nat.le_of_eq after)] at homes

theorem step_of_leaveBlock {id : ScopeId} (running : m.fault = none)
    (agenda : m.agenda = .leaveBlock site id :: rest) (here : m.context.current = id)
    (deep : id ≠ rootScope) : m.step.context = m.context ∧ m.step.fault = none ∧
      m.step.agenda = .exitScope id 0 (.blockEnd site id) :: rest := by
  have step : m.step = { m with agenda := rest }.leaveBlock site id := step_eq running agenda
  have told : ({ m with agenda := rest }.tellAt site .blockClosing).context.current = id := by
    cases site with
    | program | hook => exact here
  rw [step, leaveBlock, if_neg (not_not.mpr told), if_neg deep]
  cases site with
  | program | hook => exact ⟨rfl, running, rfl⟩

/-- The program in front of `rest` takes off the levels that it puts on and no others, and so do the
scripts of all hooks that it sets off. -/
structure WellBracketed (m : Machine) (rest : List Task) : Prop where
  balanced : ∀ n, Completes rest m n → m.Balanced n
  hooks : ∀ n, Completes rest m n → m.HooksBalanced n

/-- Whether a program is well bracketed can be told from the run that it takes. -/
theorem wellBracketed_of_lengths (busy : ∀ i < n, rest.length < (m.steps i).agenda.length)
    (short : (m.steps n).agenda.length ≤ rest.length) (balanced : m.Balanced n)
    (hooks : m.HooksBalanced n) : m.WellBracketed rest := by
  refine ⟨?_, ?_⟩
  · intro k completes
    rw [completes.eq_of_lengths busy short]
    exact balanced
  · intro k completes
    rw [completes.eq_of_lengths busy short]
    exact hooks

/-- At the end of its body, a block that has put on the level of `home` is left properly. -/
structure LeavesBlock (m : Machine) (site : Site) (home : Home) (rest : List Task) : Prop where
  /-- The active scope is the block's own, and its level the one that the block has put on. -/
  here : m.context.scopes.activeHome = home
  running : m.step.fault = none
  agenda : m.step.agenda = .exitScope home.scope 0 (.blockEnd site home.scope) :: rest
  /-- Unless it is stopped, the exit takes off that level and no other. -/
  exit : (∀ n, Completes rest m.step n → m.step.HooksBalanced n) → Stops rest m.step ∨
    ∃ n, Completes rest m.step (n + 1) ∧
      (m.step.steps n).context.scopes.activeHome = home ∧
      (m.step.steps n).context.scopes.pop = .ok ((m.step.steps n).context.scopes.active,
        (m.step.steps (n + 1)).context.scopes) ∧
      List.Forall₂ Level.Extends m.context.scopes.levels.dropLast
        (m.step.steps (n + 1)).context.scopes.levels

theorem leavesBlock (sound : m.context.Sound) (running : m.fault = none)
    (agenda : m.agenda = .leaveBlock site m.context.current :: rest)
    (deep : m.context.current ≠ rootScope) :
    m.LeavesBlock site m.context.scopes.activeHome rest := by
  obtain ⟨same, going, next⟩ := step_of_leaveBlock running agenda rfl deep
  have sound' : m.step.context.Sound := same ▸ sound
  have level : m.step.depth = m.depth := congrArg (·.scopes.depth) same
  refine ⟨rfl, going, next, ?_⟩
  intro hooks
  have begun : m.step.agenda = [.exitScope m.context.current 0
    (.blockEnd site m.context.current)] ++ rest := next
  rcases completes_or_stops sound' begun with stops | ⟨n, completes⟩
  · exact Or.inl stops
  · obtain ⟨refs, k, rfl, exited⟩ := completes.exited sound' next AfterExit.noConfusion
      (level ▸ sound.two_le_depth deep) (hooks n completes)
    have levels := exited.levels
    have home := exited.balanced.activeHome_eq sound'
    rw [same] at levels home
    exact Or.inr ⟨k, completes, home, exited.leaves.pop_of_leave, levels⟩

theorem client_perform (site : Site) (program : List Command) :
    ∀ t ∈ program.map (Task.perform site), t.Client := by
  intro t ht
  obtain ⟨c, _, rfl⟩ := List.mem_map.mp ht
  trivial

/-- A well bracketed program, if it is not stopped, leaves the levels as they were and only appends
to their queues. A block with a well bracketed body is left from its own scope, and that takes off
the level that the block has put on. -/
theorem bracketing (reached : m.context.Reached) (running : m.fault = none) :
    (∀ (site : Site) (program : List Command) (rest : List Task),
      m.agenda = program.map (.perform site) ++ rest → m.WellBracketed rest →
      Stops rest m ∨ ∃ n, Completes rest m n ∧ List.Forall₂ Level.Extends
        m.context.scopes.levels (m.steps n).context.scopes.levels) ∧
    ∀ (site : Site) (body : List Command) (rest : List Task),
      m.agenda = .perform site (.block body) :: rest →
      m.step.WellBracketed (.leaveBlock site m.context.scopes.push.current :: rest) →
      Stops (.leaveBlock site m.context.scopes.push.current :: rest) m.step ∨
        ∃ n, Completes (.leaveBlock site m.context.scopes.push.current :: rest) m.step n ∧
          (m.step.steps n).LeavesBlock site m.context.scopes.push.activeHome rest ∧
          List.Forall₂ Level.Extends m.context.scopes.levels
            (m.step.steps n).context.scopes.levels.dropLast := by
  have sound := reached.sound
  refine ⟨?_, ?_⟩
  · intro site program rest agenda bracketed
    rcases completes_or_stops sound agenda with stops | ⟨n, completes⟩
    · exact Or.inl stops
    · exact Or.inr ⟨n, completes, completes.framed sound agenda (client_perform site program)
        (bracketed.balanced n completes) (bracketed.hooks n completes)⟩
  · intro site body rest agenda bracketed
    obtain ⟨ds, new, turn, next⟩ := turn_step sound running agenda
    obtain ⟨entered, _, rfl⟩ := turn.opens
    rw [List.append_assoc] at next
    have pushed : m.step.context.scopes = m.context.scopes.push := congrArg Context.scopes entered
    have sound' := sound_step sound
    rcases completes_or_stops sound' next with stops | ⟨n, completes⟩
    · exact Or.inl stops
    · refine Or.inr ⟨n, completes, ?_, ?_⟩
      · have home := (bracketed.balanced n completes).activeHome_eq sound'
        rw [pushed] at home
        have here : (m.step.steps n).context.current = m.context.scopes.push.current :=
          congrArg Home.scope home
        have deep : m.context.scopes.push.current ≠ rootScope :=
          Nat.ne_of_gt (Nat.succ_lt_succ sound.numbered.pos)
        obtain ⟨ended, going⟩ := completes.ended
        have left := leavesBlock (sound_steps sound' n) going (here ▸ ended) (here ▸ deep)
        rwa [home] at left
      · have levels := completes.framed sound' next (client_perform _ body)
          (bracketed.balanced n completes) (bracketed.hooks n completes)
        have shorter := Level.extends_dropLast levels
        rwa [pushed, ScopeStack.levels_push, List.dropLast_concat] at shorter

/-- A block is next. In an inner block it gives up a record of its own and one of the root scope,
and the script of its own record opens and leaves another scope. -/
def nestedBlocks : Machine :=
  (start {} .ample [.update (.newStr []) .strict none,
    .block [.update (.newStr []) .strict none,
      .setHook (.ref ⟨3, 0⟩) "last" [.update .pushScope .strict none, .popScope .strict],
      .block [.update (.decrement .heap false (.ref ⟨3, 0⟩)) .strict none,
        .update (.decrement .heap false (.ref ⟨2, 0⟩)) .strict none]]]).steps 2

theorem bracketing_nestedBlocks :
    nestedBlocks.WellBracketed [] ∧ nestedBlocks.step.WellBracketed [.leaveBlock .program 2] ∧
    (Stops [] nestedBlocks ∨ ∃ n, Completes [] nestedBlocks n ∧ List.Forall₂ Level.Extends
      nestedBlocks.context.scopes.levels (nestedBlocks.steps n).context.scopes.levels) ∧
    (Stops [.leaveBlock .program 2] nestedBlocks.step ∨
      ∃ n, Completes [.leaveBlock .program 2] nestedBlocks.step n ∧
        (nestedBlocks.step.steps n).LeavesBlock .program ⟨2, 1⟩ [] ∧
        List.Forall₂ Level.Extends nestedBlocks.context.scopes.levels
          (nestedBlocks.step.steps n).context.scopes.levels.dropLast) := by
  have reached : nestedBlocks.context.Reached := ⟨_, (Reachable.start _ _ _).steps 2, rfl⟩
  have whole : nestedBlocks.WellBracketed [] :=
    wellBracketed_of_lengths (n := 20) (by decide) (by decide) ⟨by decide, by decide⟩
      (hooksBalanced_of_lengths (by decide))
  have inner : nestedBlocks.step.WellBracketed [.leaveBlock .program 2] :=
    wellBracketed_of_lengths (n := 10) (by decide) (by decide) ⟨by decide, by decide⟩
      (hooksBalanced_of_lengths (by decide))
  obtain ⟨program, block⟩ := bracketing reached rfl
  exact ⟨whole, inner, program .program [_] [] rfl whole, block .program _ [] rfl inner⟩

end Machine

end ScopedHeap
