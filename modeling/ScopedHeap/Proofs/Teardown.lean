import ScopedHeap.Proofs.Reclamation
import ScopedHeap.Proofs.Tally
import ScopedHeap.Proofs.Termination

/-!
# Teardown leaves nothing behind

A teardown leaves the open scopes one by one, drains the root, and gives up what is still live. On
its way (`Stage`) it only takes containers apart, so the graph of containers stays free of circles.
When the client holds nothing, all that is left before the sweep would have to wait in a queue, and
the queues are empty by then: there is nothing to give up.
-/
namespace ScopedHeap

open Context

/-- Deeds of which a teardown consists before it sweeps. -/
def Deed.Dismantles : Deed → Prop
  | lower _ | defer _ | destroy _ | drain _ | leave | bury => True
  | _ => False

/-- Tasks of the destruction of a record whose hook runs no command. -/
def Task.Destroys : Task → Prop
  | .releaseRefs _ | .bury _ _ _ => True
  | .runScript _ _ _ script => script = []
  | _ => False

namespace Context

variable {cx cx' : Context} {d : Deed} {ds : List Deed}

/-- Taking things apart adds no reference. -/
theorem Move.refers (move : Move cx d cx') (sound : cx.Sound) (h : d.Dismantles) {x y : Ref}
    (refers : cx'.Refers x y) : cx.Refers x y := by
  rcases refers with ⟨record, found, hy⟩
  have fate := move.fate sound x
  have shown := Table.bare_of_find? found
  have before : ∃ old, cx.table.bare x = some old ∧ old.payload = record.payload := by
    generalize cx.table.bare x = content at fate
    rw [shown] at fate
    have payload : record.core.payload = record.payload := rfl
    generalize record.core = after at fate payload
    cases fate with
    | same => exact ⟨_, rfl, payload⟩
    | @lowered old => exact ⟨old, rfl, payload⟩
    | @deferred old => exact ⟨old, rfl, payload⟩
    | raised | kept | hooked | stored | allocated | furnished | settled => exact h.elim
  rcases before with ⟨_, hold, payload⟩
  rcases Table.bare_eq_some_iff.mp hold with ⟨old, there, rfl⟩
  rw [← payload] at hy
  exact ⟨old, there, hy⟩

theorem Move.acyclic (move : Move cx d cx') (sound : cx.Sound) (h : cx.Acyclic)
    (dismantles : d.Dismantles) : cx'.Acyclic :=
  fun x cycle => h x (Relation.TransGen.mono (fun _ _ => move.refers sound dismantles) x x cycle)

theorem Path.acyclic (path : Path cx ds cx') (sound : cx.Sound) (h : cx.Acyclic)
    (dismantles : ∀ d ∈ ds, d.Dismantles) : cx'.Acyclic :=
  (path.along (R := fun _ => True) (fun move sound h dismantles =>
    ⟨move.acyclic sound h dismantles, trivial⟩) sound h dismantles).1

end Context

theorem Doomed.destroys_tasks {d : Doomed} (silent : ∀ hook ∈ d.record.header.hook,
    hook.isSilent = true) : ∀ t ∈ d.tasks, t.Destroys := by
  unfold Doomed.tasks
  dsimp only
  split
  · simp [Task.Destroys]
  · split <;> simp [Task.Destroys]
  · rename_i name commands hook
    have empty : commands.isEmpty = true := silent _ hook
    simpa [Task.Destroys] using empty

/-- The agenda of a teardown on its way down to the root, with the destructions in progress. -/
inductive Descent (cx : Context) : List Task → Prop
  | unwinding : Descent cx [.unwind, .drain, .sweep]
  | exiting {scope : ScopeId} {drained : Nat} (deep : cx.current ≠ rootScope) :
      Descent cx [.exitScope scope drained .unwind, .drain, .sweep]
  | draining (root : cx.current = rootScope) : Descent cx [.drain, .sweep]
  | destroying {t : Task} {rest : List Task} (destroys : t.Destroys) :
      Descent cx rest → Descent cx (t :: rest)

/-- How far a teardown has come. -/
inductive Stage (cx : Context) : List Task → Prop
  | descending {agenda : List Task} : Descent cx agenda → Stage cx agenda
  | sweeping (empty : cx.scopes.waiting = []) : Stage cx [.sweep]
  | ended (empty : cx.scopes.waiting = []) : Stage cx []

namespace Descent

variable {cx cx' : Context} {tasks rest : List Task}

theorem congr (h : Descent cx rest) (same : cx'.current = cx.current) : Descent cx' rest := by
  induction h with
  | unwinding => exact .unwinding
  | exiting deep => exact .exiting (by rwa [same])
  | draining root => exact .draining (by rwa [same])
  | destroying destroys _ ih => exact .destroying destroys ih

theorem append (h : Descent cx rest) (destroys : ∀ t ∈ tasks, t.Destroys) :
    Descent cx (tasks ++ rest) := by
  induction tasks with
  | nil => exact h
  | cons t tasks ih =>
    exact .destroying (destroys t List.mem_cons_self)
      (ih fun u hu => destroys u (List.mem_cons_of_mem t hu))

end Descent

/-- Tasks that the machine sets itself, short of sweeping. -/
def Task.isInternal : Task → Bool
  | .perform _ _ | .sweep => false
  | _ => true

theorem Task.isInternal_spec {t : Task} (h : t.isInternal = true) (b : Bindings) :
    t.change? b = none ∧ t.isSweep = false ∧ t.isFrugal b = true := by
  cases t with
  | perform | sweep => cases h
  | runScript | releaseRefs | bury | finish | exitScope | leaveBlock | unwind | drain =>
    exact ⟨rfl, rfl, rfl⟩

theorem Descent.isInternal {cx : Context} {t : Task} {rest : List Task}
    (h : Descent cx (t :: rest)) : t.isInternal = true := by
  cases h with
  | unwinding | exiting | draining => rfl
  | destroying destroys =>
    cases t with
    | releaseRefs | bury | runScript => rfl
    | perform | finish | exitScope | leaveBlock | unwind | drain | sweep => exact destroys.elim

section Turning

variable {cx cx' : Context} {grants : Grants} {b : Bindings} {t : Task} {ds : List Deed}
  {new rest : List Task} {fault : Option Fault}

theorem Turn.cascade (turn : Turn cx grants b t ds cx' new fault) (h : t.Destroys)
    (held : ∀ r ∈ t.inFlight, ¬ cx.Unheld r) (silent : ∀ d ∈ ds, ∀ e, d.removed? = some e →
      ∀ hook ∈ e.record.header.hook, hook.isSilent = true) :
    fault = none ∧ (∀ d ∈ ds, d.Dismantles ∧ d ≠ .enter ∧ d ≠ .leave) ∧ ∀ t ∈ new, t.Destroys := by
  cases turn with
  | asked | unbound | changed | refused | outermost | popping | unhooked | hooked | opened
  | finished | exiting | left | bottom | closing | mismatched | unwound | unwinding | draining
  | drained | swept => exact h.elim
  | scripted =>
    have script : _ = [] := h
    simp [script]
  | released => simp
  | @releasing r rest doomed w d ran move lowers conduct =>
    refine ⟨rfl, ?_, ?_⟩
    · intro e he
      rw [List.mem_singleton.mp he]
      cases d with
      | lower | defer | destroy => simp [Deed.Dismantles]
      | raise | keep | drain | allocate | allocateStatic | hook | store | enter | leave | bury
      | sweep => exact lowers.elim
    · intro t ht
      rcases List.mem_append.mp ht with ht | ht
      · have dooms := conduct.dooms
        cases doomed with
        | none => cases ht
        | some gone => exact Doomed.destroys_tasks (silent _ dooms.mem gone rfl) t ht
      · rw [List.mem_singleton.mp ht]
        trivial
  | stuck ran unheld => exact absurd unheld (held _ List.mem_cons_self)
  | buried => simp [Deed.Dismantles]

theorem Context.Sound.outer_eq_nil_iff (h : cx.Sound) :
    cx.scopes.outer = [] ↔ cx.current = rootScope := by
  have depth : cx.current = cx.scopes.outer.length + 1 := h.numbered.current_eq
  rw [depth, ← List.length_eq_zero_iff]
  exact Nat.succ_inj.symm

theorem Turn.descends (turn : Turn cx grants b t ds cx' new fault) (sound : cx.Sound)
    (h : Descent cx (t :: rest)) (held : ∀ r ∈ t.inFlight, ¬ cx.Unheld r)
    (silent : ∀ d ∈ ds, ∀ e, d.removed? = some e →
      ∀ hook ∈ e.record.header.hook, hook.isSilent = true) :
    fault = none ∧ (∀ d ∈ ds, d.Dismantles) ∧ Stage cx' (new ++ rest) := by
  cases h with
  | unwinding =>
    cases turn with
    | unwound root => exact ⟨rfl, by simp, .descending (.draining root)⟩
    | unwinding deep => exact ⟨rfl, by simp, .descending (.exiting deep)⟩
  | exiting deep =>
    cases turn with
    | @exiting _ _ _ d w ran move =>
      refine ⟨rfl, by simp [Deed.Dismantles], .descending ?_⟩
      rw [List.append_assoc]
      have same := move.current_eq (by simp) (by simp)
      exact ((Descent.exiting deep).congr same).append
        (Doomed.destroys_tasks (silent _ List.mem_cons_self d rfl))
    | left move => exact ⟨rfl, by simp [Deed.Dismantles], .descending .unwinding⟩
    | bottom empty root => exact absurd (sound.outer_eq_nil_iff.mp root) deep
  | draining root =>
    cases turn with
    | @draining d w ran move =>
      refine ⟨rfl, by simp [Deed.Dismantles], .descending ?_⟩
      rw [List.append_assoc]
      have same := move.current_eq (by simp) (by simp)
      exact ((Descent.draining root).congr same).append
        (Doomed.destroys_tasks (silent _ List.mem_cons_self d rfl))
    | drained empty =>
      refine ⟨rfl, by simp, .sweeping ?_⟩
      rw [ScopeStack.waiting, ScopeStack.stack_eq, sound.outer_eq_nil_iff.mpr root]
      simpa using empty
  | destroying destroys h =>
    rcases turn.cascade destroys held silent with ⟨running, deeds, tasks⟩
    have same := turn.path.current_eq fun d hd => (deeds d hd).2
    exact ⟨running, fun d hd => (deeds d hd).1, .descending ((h.congr same).append tasks)⟩

theorem Turn.sweeps_nothing (turn : Turn cx grants b .sweep ds cx' new fault)
    (empty : cx.table.live = []) : cx' = cx ∧ new = [] ∧ fault = none := by
  cases turn with
  | swept path sweeps all =>
    rw [empty] at all
    obtain rfl := List.length_eq_zero_iff.mp all
    cases path
    exact ⟨rfl, rfl, rfl⟩

end Turning

namespace Books

variable {b : Books}

/-- The books of a client that holds nothing but static records, while its context is torn down. -/
structure Shutdown (b : Books) : Prop extends b.Tended where
  running : b.machine.fault = none
  unowned : ∀ x, b.machine.context.table.isStatic x = false → b.owned x = 0
  acyclic : b.machine.context.Acyclic
  stage : Stage b.machine.context b.machine.agenda

theorem owned_step {t : Task} {rest : List Task} (running : b.machine.fault = none)
    (next : b.machine.agenda = t :: rest) (change : t.change? b.machine.bindings = none) :
    b.step.owned = b.owned := by
  unfold Books.step
  rw [Machine.change?_eq running next, change]
  rfl

/-- What the machine does by itself is no business of the client's. -/
theorem thrifty_of_isInternal {t : Task} {rest : List Task} (running : b.machine.fault = none)
    (next : b.machine.agenda = t :: rest) (internal : t.isInternal = true) : b.Thrifty := by
  rcases Task.isInternal_spec internal b.machine.bindings with ⟨change, keeps, frugal⟩
  rw [← Machine.change?_eq running next] at change
  have first : ∀ u ∈ b.machine.agenda.head?, u = t := by
    intro u hu
    rw [next] at hu
    exact (Option.some.inj hu).symm
  refine ⟨⟨?_, ?_, ?_⟩, ?_⟩
  · simp [change]
  · simp [change]
  · intro u hu
    rw [first u hu]
    exact keeps
  · intro u hu
    rw [first u hu]
    exact frugal

theorem Kept.not_unheld (h : b.Kept) {r : Ref} (flying : r ∈ inFlight b.machine.agenda) :
    ¬ b.machine.context.Unheld r := by
  rintro ⟨tracked, zero⟩
  exact absurd zero (Nat.ne_of_gt (h.count_pos (Or.inr (Or.inr flying)) tracked))

/-- Nothing is left of a teardown once no destruction is in progress and no queue has anything. -/
theorem Shutdown.static_of_landed (h : b.Shutdown) (landed : inFlight b.machine.agenda = [])
    (empty : b.machine.context.scopes.waiting = []) {x : Ref} {record : Record}
    (found : b.machine.context.table.find? x = some record) :
    record.header.creationScope = staticScope := by
  by_contra tracked
  rcases h.grounded landed h.acyclic found tracked with ⟨root, _, counted, reason⟩
  rcases reason with pending | owned
  · rw [← h.sound.mem_waiting_iff, empty] at pending
    cases pending
  · rw [h.unowned root counted] at owned
    exact Nat.lt_irrefl 0 owned

theorem Shutdown.live_eq_nil (h : b.Shutdown) (landed : inFlight b.machine.agenda = [])
    (empty : b.machine.context.scopes.waiting = []) : b.machine.context.table.live = [] := by
  apply List.eq_nil_iff_forall_not_mem.mpr
  intro r hr
  rcases h.sound.find?_of_live hr with ⟨record, found, live⟩
  have scope := h.static_of_landed landed empty found
  cases live.symm.trans ((h.sound.proper r _ (Table.bare_of_find? found)).static.mpr scope)

theorem Shutdown.step (h : b.Shutdown) : b.step.Shutdown := by
  have stage := h.stage
  generalize next : b.machine.agenda = agenda at stage
  cases stage with
  | ended empty =>
    have same : b.step = b := by
      rcases b.step_cases with same | ⟨_, t, rest, ht⟩
      · exact same
      · rw [next] at ht
        cases ht
    rw [same]
    exact h
  | sweeping empty =>
    have landed : inFlight b.machine.agenda = [] := by rw [next]; rfl
    rcases Machine.turn_step h.sound h.running next with ⟨ds, new, turn, agenda⟩
    rcases turn.sweeps_nothing (h.live_eq_nil landed empty) with ⟨context, rfl, running⟩
    have owned : b.step.owned = b.owned := owned_step h.running next rfl
    have context : b.step.machine.context = b.machine.context := context
    have agenda : b.step.machine.agenda = [] := agenda
    refine ⟨⟨h.toKept.congr context owned ?_, ?_⟩, running, ?_, ?_, ?_⟩
    · rw [landed, agenda]
      rfl
    · rw [context]
      exact h.tended
    · rw [context, owned]
      exact h.unowned
    · rw [context]
      exact h.acyclic
    · rw [context, agenda]
      exact .ended empty
  | descending descent =>
    cases agenda with
    | nil => cases descent
    | cons t rest =>
      rcases Machine.turn_step h.sound h.running next with ⟨ds, new, turn, agenda⟩
      have internal := descent.isInternal
      have thrifty := thrifty_of_isInternal h.running next internal
      have first : t ∈ b.machine.agenda.head? := by rw [next]; rfl
      have frugal := turn.frugal (thrifty.frugal t first) (thrifty.keeps t first)
      have silent := (turn.path.tended h.sound h.tended frugal).2
      have held : ∀ r ∈ t.inFlight, ¬ b.machine.context.Unheld r := by
        intro r hr
        apply h.not_unheld
        rw [next, inFlight_cons]
        exact List.mem_append_left _ hr
      rcases turn.descends h.sound descent held silent with ⟨running, dismantles, stage⟩
      refine ⟨h.toTended.step thrifty, running, ?_,
        turn.path.acyclic h.sound h.acyclic dismantles, ?_⟩
      · intro x counted
        rw [owned_step h.running next (Task.isInternal_spec internal _).1]
        exact h.unowned x (turn.path.isStatic_eq_false h.sound counted)
      · rw [← agenda] at stage
        exact stage

theorem machine_steps (b : Books) (n : Nat) : (b.steps n).machine = b.machine.steps n := by
  induction n generalizing b with
  | zero => rfl
  | succ n ih => exact ih b.step

theorem Shutdown.steps (h : b.Shutdown) (n : Nat) : (b.steps n).Shutdown := by
  induction n generalizing b with
  | zero => exact h
  | succ n ih => exact ih h.step

theorem Kept.owned_of_absent (h : b.Kept) {x : Ref}
    (absent : b.machine.context.table.find? x = none) : b.owned x = 0 := by
  have balance := h.balance x (by rw [Table.isStatic, absent]; rfl)
  rw [Table.count, absent, Option.elim_none] at balance
  omega

/-- Closing down the books of a client that holds static records at most. -/
theorem Tended.shutdown (h : b.Tended) (idle : b.machine.Idle)
    (acyclic : b.machine.context.Acyclic)
    (unowned : ∀ x record, b.machine.context.table.find? x = some record →
      record.header.creationScope ≠ staticScope → b.owned x = 0) :
    Shutdown ⟨b.machine.closing, b.owned⟩ := by
  refine ⟨⟨h.toKept.closing idle, h.tended⟩, idle.running, ?_, acyclic, .descending ?_⟩
  · intro x counted
    cases found : b.machine.context.table.find? x with
    | none => exact h.owned_of_absent found
    | some record => exact unowned x record found ((Table.isStatic_eq_false found).mp counted)
  unfold Machine.closing
  dsimp only
  by_cases deep : 1 < b.machine.context.scopes.depth
  · rw [if_pos deep]
    exact .unwinding
  · rw [if_neg deep]
    refine .draining ?_
    have depth : b.machine.context.current = b.machine.context.scopes.depth :=
      h.sound.numbered.current_eq
    have positive : 0 < b.machine.context.current := h.sound.numbered.pos
    rw [depth] at positive
    exact depth.trans (Nat.le_antisymm (Nat.le_of_not_lt deep) positive)

/-- What a teardown comes to. -/
theorem Shutdown.stats (h : b.Shutdown) (ended : b.machine.agenda = []) :
    b.machine.context.stats.leaked = 0 ∧ b.machine.context.stats.live = 0 ∧
      b.machine.context.stats.pending = 0 := by
  have stage := h.stage
  rw [ended] at stage
  cases stage with
  | descending descent => cases descent
  | ended empty =>
    refine ⟨h.tended.unleaked, ?_, ?_⟩
    · rcases h.sound.listed with ⟨l, listed, _⟩
      have live := h.live_eq_nil (by rw [ended]; rfl) empty
      rw [listed.live_eq, List.map_eq_nil_iff] at live
      show b.machine.context.table.liveCount = 0
      rw [listed.count, live]
      rfl
    · show b.machine.context.scopes.pending = 0
      rw [← ScopeStack.length_waiting, empty]
      rfl

theorem Run.reachable {rule : Books → Prop} (h : b.Run rule) : b.machine.Reachable := by
  induction h with
  | start settings memory program => exact .start settings memory program
  | step _ _ ih => exact ih.step
  | closing _ idle ih => exact ih.closing idle

/-- Whatever is not static is there for a reason, and once the client holds nothing of it a teardown
gives everything back. -/
theorem Run.reclamation (h : b.Run Thrifty) (idle : b.machine.Idle)
    (acyclic : b.machine.context.Acyclic) :
    (∀ x record, b.machine.context.table.find? x = some record →
      record.header.creationScope ≠ staticScope →
      ∃ root, Relation.ReflTransGen b.machine.context.Refers root x ∧
        b.machine.context.table.isStatic root = false ∧
        (b.machine.context.isPending root = true ∨ 0 < b.owned root)) ∧
    ((∀ x record, b.machine.context.table.find? x = some record →
        record.header.creationScope ≠ staticScope → b.owned x = 0) →
      b.machine.tearDown.fault = none ∧ b.machine.tearDown.agenda = [] ∧
      b.machine.tearDown.context.stats.leaked = 0 ∧ b.machine.tearDown.context.stats.live = 0 ∧
      b.machine.tearDown.context.stats.pending = 0 ∧
      b.machine.tearDown.context.stats.allocated = b.machine.tearDown.context.stats.destroyed) := by
  have tended := h.tended
  constructor
  · intro x record found tracked
    exact tended.grounded (inFlight_of_idle idle) acyclic found tracked
  · intro unowned
    have shutdown := (tended.shutdown idle acyclic unowned).steps b.machine.closing.weight
    have run : ((⟨b.machine.closing, b.owned⟩ : Books).steps b.machine.closing.weight).machine =
        b.machine.tearDown := machine_steps _ _
    have running := shutdown.running
    rw [run] at running
    have ended : b.machine.tearDown.agenda = [] := by
      have finished : b.machine.tearDown.isFinished = true := b.machine.closing.isFinished_run
      rw [Machine.isFinished, running] at finished
      simpa using finished
    rcases shutdown.stats (by rw [run]; exact ended) with ⟨leaked, live, pending⟩
    rw [run] at leaked live pending
    refine ⟨running, ended, leaked, live, pending, ?_⟩
    have tally := (h.reachable.tearDown idle).tally
    rw [ended, total_nil, accounted, Context.stored] at tally
    dsimp only [Context.stats] at leaked live pending ⊢
    omega

/-- A string is left to a list, which is given up in an inner scope. A static record stays with the
client. -/
def boxed : Books where
  machine := .start {} .ample [.update (.allocateStatic (.raw [])) .strict none,
    .update (.newStr []) .strict none,
    .update (.newList .object [.object (.ref ⟨3, 0⟩)]) .strict none,
    .update (.decrement .heap false (.ref ⟨3, 0⟩)) .strict none,
    .update .pushScope .strict none,
    .update (.decrement .heap false (.ref ⟨4, 0⟩)) .strict none]
  owned := fun _ => 0

theorem reclamation_boxed : (boxed.steps 12).owned ⟨2, 0⟩ = 1 ∧
    (∃ root, Relation.ReflTransGen (boxed.steps 12).machine.context.Refers root ⟨3, 0⟩ ∧
      (boxed.steps 12).machine.context.isPending root = true) ∧
    (boxed.steps 12).machine.tearDown.context.stats.leaked = 0 ∧
    (boxed.steps 12).machine.tearDown.context.stats.allocated =
      (boxed.steps 12).machine.tearDown.context.stats.destroyed := by
  have owned : (boxed.steps 12).owned = Function.update (Function.update (Function.update
      (Function.update (Function.update (fun _ => 0) ⟨2, 0⟩ 1) ⟨3, 0⟩ 1) ⟨4, 0⟩ 1) ⟨3, 0⟩ 0)
      ⟨4, 0⟩ 0 := rfl
  have unowned : ∀ x, (boxed.steps 12).machine.context.table.isStatic x = false →
      (boxed.steps 12).owned x = 0 := by
    intro x counted
    have other : x ≠ ⟨2, 0⟩ := by
      rintro rfl
      exact absurd counted (by decide)
    rw [owned]
    grind [Function.update_apply]
  have idle : (boxed.steps 12).machine.Idle := ⟨rfl, fun _ ht => by cases ht⟩
  have acyclic : (boxed.steps 12).machine.context.Acyclic := acyclic_of_index_lt (by decide)
  obtain ⟨grounded, settled⟩ :=
    ((Run.start _ _ _).steps (b := boxed) 12 (by decide)).reclamation idle acyclic
  obtain ⟨_, _, leaked, _, _, balanced⟩ := settled fun x record found tracked =>
    unowned x ((Table.isStatic_eq_false found).mpr tracked)
  obtain ⟨root, path, counted, reason⟩ := grounded ⟨3, 0⟩ _ rfl (by decide)
  refine ⟨by rw [owned]; rfl, ⟨root, path, reason.resolve_right ?_⟩, leaked, balanced⟩
  rw [unowned root counted]
  exact Nat.lt_irrefl 0

end Books

end ScopedHeap
