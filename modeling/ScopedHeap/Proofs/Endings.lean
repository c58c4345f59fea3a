import ScopedHeap.Proofs.Span

/-!
# Every operation ends

A command is over when what stood behind it on the agenda comes up again. By then its outcome has
been told, as the last thing that happened (`Machine.Completes.tells`): whatever a command puts on
the agenda, the last task of it will tell what the command came to. Since every step takes some of
the weight of a machine, a command that is not stopped is over after no more steps than the machine
weighed before (`Machine.Completes.le_weight`).
-/
namespace ScopedHeap

/-- The event tells that a command at the site has come to this outcome. -/
inductive Event.Reports : Site → Outcome → Event → Prop
  | answered (outcome : Outcome) (after : Context) :
      Reports .program outcome (.answered outcome after)
  | hookAnswered (name : String) (outcome : Outcome) :
      Reports (.hook name) outcome (.hookAnswered name outcome)
  | blockClosed (after : Context) : Reports .program (.ok .done) (.blockClosed after)

/-- Where the outcome is told to which a task leads, if it leads to one. -/
def Task.site? : Task → Option Site
  | .perform site _ | .leaveBlock site _ => some site
  | .finish reply _ _ | .exitScope _ _ (.answer reply) => some reply.site
  | .exitScope _ _ (.blockEnd site _) => some site
  | _ => none

namespace Machine

variable {m m' : Machine} {site : Site} {outcome : Outcome} {rest front : List Task} {t : Task}
  {n : Nat}

/-- The last thing that happened is that a command at the site came to this outcome. -/
def Tells (m : Machine) (site : Site) (outcome : Outcome) : Prop :=
  ∃ event earlier, m.trace = event :: earlier ∧ event.Reports site outcome

theorem Tells.unique {other : Outcome} (h : m.Tells site outcome) (k : m.Tells site other) :
    outcome = other := by
  obtain ⟨event, earlier, trace, reports⟩ := h
  obtain ⟨event', earlier', trace', reports'⟩ := k
  obtain rfl : event = event' := (List.cons.inj (trace.symm.trans trace')).1
  cases reports <;> cases reports' <;> rfl

theorem tells_deliver (m : Machine) (reply : Reply) (outcome : Outcome) :
    (m.deliver reply outcome).Tells reply.site outcome := by
  obtain ⟨site, policy, bind⟩ := reply
  cases site with
  | program => exact ⟨_, _, rfl, .answered _ _⟩
  | hook name => exact ⟨_, _, rfl, .hookAnswered _ _⟩

theorem tells_closeBlock (m : Machine) (site : Site) (id : ScopeId) :
    ∃ outcome, (m.closeBlock site id).Tells site outcome := by
  cases site with
  | program => exact ⟨_, _, _, rfl, .blockClosed _⟩
  | hook name => exact ⟨_, _, _, rfl, .hookAnswered _ _⟩

/-- The machine `m'` has been stopped, or has told an outcome at the site, or has put tasks on the
agenda of `m` the last of which leads to one. -/
def Answers (m : Machine) (site : Site) (m' : Machine) : Prop :=
  m'.fault ≠ none ∨ (∃ outcome, m'.Tells site outcome) ∧ m'.agenda = m.agenda ∨
    ∃ front t, m'.agenda = front ++ t :: m.agenda ∧ t.site? = some site

theorem answers_stop (m : Machine) (site : Site) (m' : Machine) (f : Fault) :
    m.Answers site (m'.stop f) := Or.inl (Option.some_ne_none f)

theorem answers_deliver (reply : Reply) (outcome : Outcome) (same : m'.agenda = m.agenda) :
    m.Answers reply.site (m'.deliver reply outcome) :=
  Or.inr (Or.inl ⟨⟨outcome, m'.tells_deliver reply outcome⟩, same⟩)

theorem answers_fail (reply : Reply) (e : Error) (same : m'.agenda = m.agenda) :
    m.Answers reply.site (m'.fail reply e) := by
  obtain ⟨site, policy, bind⟩ := reply
  cases policy with
  | checked => exact answers_deliver ⟨site, .checked, bind⟩ (.error e) same
  | strict => exact answers_stop _ _ _ _

theorem answers_schedule (front : List Task) (t : Task) (last : t.site? = some site)
    (same : m'.agenda = m.agenda) : m.Answers site (m'.schedule (front ++ [t])) := by
  refine Or.inr (Or.inr ⟨front, t, ?_, last⟩)
  rw [schedule, same, List.append_assoc]
  rfl

theorem act_elim {α : Type} {x : Act α} {onError : Machine → Error → Machine}
    {onValue : Machine → α → Machine} {Q : Machine → Prop}
    (failed : ∀ e w, Q (onError (m.settle w) e)) (passed : ∀ a w, Q (onValue (m.settle w) a)) :
    Q (m.act x onError onValue) := by
  have any : x.Ends m.workspace fun _ _ => True := by
    unfold Act.Ends
    split <;> trivial
  exact act_cases any (fun e w _ _ => failed e w) fun a w _ _ => passed a w

theorem answers_perform (m : Machine) (site : Site) (c : Command) :
    m.Answers site (m.perform site c) := by
  cases c with
  | ask q policy bind =>
    unfold perform
    dsimp only
    cases m.bindings.query q with
    | error f => exact answers_stop _ _ _ _
    | ok question =>
      dsimp only
      cases m.context.answer question with
      | ok answer => exact answers_deliver ⟨site, policy, bind⟩ _ rfl
      | error e => exact answers_fail ⟨site, policy, bind⟩ e rfl
  | update u policy bind =>
    unfold perform
    dsimp only
    cases m.bindings.update u with
    | error f => exact answers_stop _ _ _ _
    | ok change =>
      apply act_elim
      · exact fun e w => answers_fail ⟨site, policy, bind⟩ e rfl
      · exact fun effect w => answers_schedule _ _ rfl rfl
  | popScope policy =>
    unfold perform popScope
    dsimp only
    by_cases root : m.context.current = rootScope
    · rw [if_pos root]
      exact answers_fail ⟨site, policy, none⟩ _ rfl
    · rw [if_neg root]
      exact answers_schedule [] _ rfl rfl
  | setHook target name script =>
    unfold perform
    dsimp only
    cases m.bindings.record target with
    | error f => exact answers_stop _ _ _ _
    | ok r =>
      apply act_elim
      · exact fun e w => answers_stop _ _ _ _
      · exact fun _ w => answers_deliver ⟨site, .strict, none⟩ _ rfl
  | block body =>
    unfold perform openBlock
    apply act_elim
    · exact fun e w => answers_stop _ _ _ _
    · intro id w
      have same : ((m.settle w).tellAt site (.blockOpened id)).agenda = m.agenda := by
        cases site <;> rfl
      exact answers_schedule _ _ rfl same

theorem answers_afterExit {after : AfterExit} (result : Except Error Unit)
    (last : (Task.exitScope 0 0 after).site? = some site) (same : m'.agenda = m.agenda) :
    m.Answers site (m'.afterExit after result) := by
  cases after with
  | answer reply =>
    cases last
    cases result with
    | ok u => exact answers_deliver reply _ same
    | error e => exact answers_fail reply e same
  | blockEnd site' id =>
    cases last
    cases result with
    | ok u =>
      refine Or.inr (Or.inl ⟨m'.tells_closeBlock site id, ?_⟩)
      cases site <;> exact same
    | error e => exact answers_stop _ _ _ _
  | unwind => cases last

theorem answers_exitScope (m : Machine) (scope : ScopeId) (drained : Nat) {after : AfterExit}
    (last : (Task.exitScope 0 0 after).site? = some site) :
    m.Answers site (m.exitScope scope drained after) := by
  have again : (Task.exitScope scope (drained + 1) after).site? = some site := by
    cases after <;> exact last
  unfold exitScope
  apply act_elim
  · exact fun e w => answers_afterExit _ last rfl
  · intro next w
    cases next with
    | some doomed => exact answers_schedule _ _ again rfl
    | none =>
      apply act_elim
      · exact fun e v => answers_afterExit _ last rfl
      · exact fun _ v => answers_afterExit _ last rfl

theorem answers_leaveBlock (m : Machine) (site : Site) (id : ScopeId) :
    m.Answers site (m.leaveBlock site id) := by
  have same : (m.tellAt site .blockClosing).agenda = m.agenda := by cases site <;> rfl
  unfold leaveBlock
  dsimp only
  split
  · exact answers_stop _ _ _ _
  · split
    · exact answers_stop _ _ _ _
    · exact answers_schedule [] _ rfl same

theorem answers_execute (m : Machine) (last : t.site? = some site) :
    m.Answers site (m.execute t) := by
  cases t with
  | perform site' c =>
    cases last
    exact m.answers_perform site c
  | finish reply closing answer =>
    cases last
    exact answers_deliver reply _ rfl
  | exitScope scope drained after =>
    refine m.answers_exitScope scope drained ?_
    cases after <;> exact last
  | leaveBlock site' id =>
    cases last
    exact m.answers_leaveBlock site id
  | runScript | releaseRefs | bury | unwind | drain | sweep => cases last

theorem Completes.tells (h : Completes rest m n) (sound : m.context.Sound)
    (agenda : m.agenda = front ++ t :: rest) (last : t.site? = some site) :
    ∃ outcome, (m.steps n).Tells site outcome := by
  refine h.last (K := (·.site? = some site)) (P := fun m => ∃ outcome, m.Tells site outcome) sound
    agenda last ?_
  intro m t _ running next last
  rw [step_eq running next]
  exact answers_execute { m with agenda := rest } last

theorem Completes.le_weight (h : Completes rest m n) : n + (m.steps n).weight ≤ m.weight := by
  induction h with
  | done => exact Nat.le_of_eq (Nat.zero_add _)
  | @step m t front n agenda running later ih =>
    have lighter := m.weight_step (by simp [isFinished, running, agenda])
    rw [steps]
    omega

/-- The tasks in front of `rest` are done after `n` steps and have come to this outcome. -/
structure Returns (rest : List Task) (m : Machine) (n : Nat) (site : Site) (outcome : Outcome) :
    Prop where
  completes : Completes rest m n
  tells : (m.steps n).Tells site outcome

theorem Completes.returns {reply : Reply} {closing : List Notice} {answer : Answer}
    (h : Completes (.finish reply closing answer :: rest) m n) :
    Returns rest m (n + 1) reply.site (.ok answer) ∧
      (m.steps (n + 1)).context = (m.steps n).context := by
  obtain ⟨agenda, running⟩ := h.ended
  have next : m.steps (n + 1) = (m.steps n).step := m.steps_add n 1
  have told := step_eq running agenda
  rw [next, told]
  refine ⟨⟨h.trans (@Completes.step _ _ _ [] _ agenda running (.done ?_ ?_)), ?_⟩, rfl⟩
  · rw [told]
    rfl
  · rw [told]
    exact running
  · rw [next, told]
    exact tells_deliver _ reply _

/-- Nothing keeps the machine busy for ever. -/
structure Terminates (m : Machine) : Prop where
  /-- It is finished after as many steps as it weighs, and stays as it is from then on. -/
  run : ∀ n, m.weight ≤ n → (m.steps n).isFinished = true ∧ m.steps n = m.run
  /-- Whatever the tasks in front are: the destruction of a record with all that it sets off, the
  emptying of a queue, the exit of one scope after the other. -/
  tasks : ∀ front rest, m.agenda = front ++ rest →
    Stops rest m ∨ ∃ n ≤ m.weight, Completes rest m n
  operation : ∀ site c rest, m.agenda = .perform site c :: rest →
    Stops rest m ∨ ∃ n ≤ m.weight, ∃ outcome, Returns rest m n site outcome
  /-- Following the live list leads to its end. -/
  walk : ∀ limit, m.context.table.cells.size ≤ limit →
    m.context.table.walk limit m.context.table.head = m.context.table.live

theorem steps_eq_run (finished : (m.steps n).isFinished = true) : m.steps n = m.run := by
  rcases Nat.le_total n m.weight with le | le
  · obtain ⟨k, hk⟩ := Nat.exists_eq_add_of_le le
    rw [run, hk, steps_add, steps_of_isFinished finished]
  · obtain ⟨k, rfl⟩ := Nat.exists_eq_add_of_le le
    rw [steps_add]
    exact steps_of_isFinished m.isFinished_run k

theorem run_step (m : Machine) : m.step.run = m.run :=
  steps_eq_run (n := m.step.weight + 1) m.step.isFinished_run

theorem Stops.fault_run (h : Stops rest m) : m.run.fault ≠ none := by
  induction h with
  | @now m stopped =>
    have finished : m.isFinished = true := by
      rw [isFinished, Option.isSome_iff_ne_none.mpr stopped, Bool.true_or]
    rw [run, steps_of_isFinished finished]
    exact stopped
  | step _ _ _ ih =>
    rw [← run_step]
    exact ih

theorem completes_of_running (sound : m.context.Sound) (running : m.run.fault = none) :
    ∃ n, Completes [] m n ∧ m.steps n = m.run := by
  have all : m.agenda = m.agenda ++ [] := (List.append_nil _).symm
  rcases completes_or_stops sound all with stops | ⟨n, completes⟩
  · exact absurd running stops.fault_run
  · refine ⟨n, completes, steps_eq_run ?_⟩
    rw [isFinished, completes.ended.1, List.isEmpty_nil, Bool.or_true]

theorem completes_or_stops_within (sound : m.context.Sound) (agenda : m.agenda = front ++ rest) :
    Stops rest m ∨ ∃ n ≤ m.weight, Completes rest m n := by
  refine (completes_or_stops sound agenda).imp_right ?_
  rintro ⟨n, completes⟩
  exact ⟨n, (Nat.le_add_right _ _).trans completes.le_weight, completes⟩

theorem terminates_of_sound (sound : m.context.Sound) : m.Terminates where
  run := fun n h => ⟨m.isFinished_steps n h, steps_eq_run (m.isFinished_steps n h)⟩
  tasks := fun _ _ => completes_or_stops_within sound
  operation := by
    intro site c rest agenda
    have alone : m.agenda = [.perform site c] ++ rest := agenda
    have last : m.agenda = [] ++ .perform site c :: rest := agenda
    refine (completes_or_stops_within sound alone).imp_right ?_
    rintro ⟨n, le, completes⟩
    obtain ⟨outcome, tells⟩ := completes.tells sound last rfl
    exact ⟨n, le, outcome, completes, tells⟩
  walk := by
    intro limit enough
    obtain ⟨l, listed, _⟩ := sound.listed
    rw [listed.live_eq, listed.head]
    exact Table.walk_of_segment listed.linked (listed.length_le.trans enough)

/-- Every operation of every program ends, with an outcome or because the program is stopped, and so
does the teardown of its context. -/
theorem Reachable.termination (h : m.Reachable) :
    m.Terminates ∧ m.closing.Terminates ∧ m.tearDown.isFinished = true :=
  ⟨terminates_of_sound h.sound, terminates_of_sound (m := m.closing) h.sound, isFinished_run _⟩

/-- The hook of a record opens a scope, and the hook of another one, made in there, leaves it. A
list that holds itself is released once too often: when it is destroyed, the reference in its own
slot finds nothing any more. -/
def knot : Machine :=
  start {} .ample [.update (.newList .object []) .strict none,
    .update (.listPush (.ref ⟨2, 0⟩) (.object (.ref ⟨2, 0⟩))) .strict none,
    .update (.newStr []) .strict none,
    .setHook (.ref ⟨3, 0⟩) "outer" [.update .pushScope .strict none,
      .update (.newStr []) .strict none, .setHook (.ref ⟨3, 1⟩) "inner" [.popScope .strict],
      .update (.decrement .heap false (.ref ⟨3, 1⟩)) .strict none],
    .update (.decrement .heap false (.ref ⟨3, 0⟩)) .strict none,
    .update (.decrement .heap false (.ref ⟨2, 0⟩)) .checked none,
    .update (.decrement .heap false (.ref ⟨2, 0⟩)) .checked none]

theorem termination_knot : knot.run.fault = some (.error (.danglingReference 2 0)) ∧
    knot.Terminates ∧ knot.closing.Terminates ∧ knot.tearDown.isFinished = true :=
  ⟨by decide +kernel, Reachable.termination (.start _ _ _)⟩

end Machine

end ScopedHeap
