import ScopedHeap.Proofs.Weight.Operations

/-!
# Machines come to an end

Every step of a machine that is not finished makes it lighter (`weight_step`). A machine can
therefore take no more steps than it weighs, and running it for so long finishes it
(`isFinished_run`), whatever its hooks do.
-/
namespace ScopedHeap

theorem Doomed.weight_tasks (d : Doomed) :
    total Task.weight d.tasks ≤ d.record.weight := by
  unfold Doomed.tasks Record.weight
  have refs : d.record.payload.refs.length ≤ d.record.payload.slots.length :=
    List.length_filterMap_le ..
  dsimp only
  split
  · simp only [total_cons, total_nil, Task.weight]
    omega
  · rename_i h
    split <;> simp only [total_cons, total_nil, Task.weight, h, Option.elim, Hook.weight] <;> omega
  · rename_i h
    simp only [total_cons, total_nil, Task.weight, h, Option.elim, Hook.weight]
    omega

theorem Doomed.weight_elim_tasks (d : Option Doomed) :
    total Task.weight (d.elim [] Doomed.tasks) ≤ Act.doomedWeight d := by
  cases d with
  | none => exact Nat.le_refl _
  | some d => exact d.weight_tasks

theorem Command.total_perform (site : Site) (cs : List Command) :
    total Task.weight (cs.map (Task.perform site)) = Command.listWeight cs := by
  induction cs with
  | nil => rfl
  | cons c cs ih => rw [List.map_cons, total_cons, ih, Command.listWeight, Task.weight]

theorem Bindings.length_slots {b : Bindings} {vs : List SlotOperand} {ss : List Slot}
    (h : b.slots vs = .ok ss) : ss.length = vs.length := by
  induction vs generalizing ss with
  | nil => simp_all [Bindings.slots, Pure.pure, Except.pure]
  | cons v vs ih =>
    simp only [Bindings.slots, List.mapM_cons, Bind.bind, Except.bind] at h
    cases hv : b.slot v <;> simp only [hv] at h
    · simp at h
    · cases hvs : List.mapM b.slot vs <;> simp only [hvs] at h
      · simp at h
      · simp only [Pure.pure, Except.pure, Except.ok.injEq] at h
        simp [← h, ih hvs]

theorem Bindings.slotCount_update {b : Bindings} {u : WrittenUpdate} {c : Change}
    (h : b.update u = .ok c) : c.slotCount = u.slotCount := by
  have bound {α : Type} {x : Except Fault α} {f : α → Except Fault Change} {c : Change}
      (h : x >>= f = .ok c) : ∃ a, x = .ok a ∧ f a = .ok c := by
    cases x with
    | error e => simp [Bind.bind, Except.bind] at h
    | ok a => exact ⟨a, rfl, h⟩
  cases u <;> simp only [update] at h
  case newList | newSet =>
    obtain ⟨_, hs, h⟩ := bound h
    obtain rfl := Except.ok.inj h
    exact length_slots hs
  case newDict =>
    obtain ⟨_, hk, h⟩ := bound h
    obtain ⟨_, hv, h⟩ := bound h
    obtain rfl := Except.ok.inj h
    simp [Update.slotCount, length_slots hk, length_slots hv]
  all_goals
    repeat' first
      | (obtain rfl := Except.ok.inj h; rfl)
      | obtain ⟨_, _, h⟩ := bound h

namespace Machine

theorem weight_schedule (m : Machine) (tasks : List Task) :
    (m.schedule tasks).weight = m.weight + total Task.weight tasks := by
  simp only [weight, schedule, total_append]
  omega

theorem weight_tellAt (m : Machine) (site : Site) (e : Event) :
    (m.tellAt site e).weight = m.weight := by
  cases site <;> rfl

theorem weight_fail (m : Machine) (reply : Reply) (e : Error) :
    (m.fail reply e).weight = m.weight := by
  unfold fail
  split <;> rfl

theorem weight_act {α : Type} {m : Machine} {x : Act α} {e : Machine → Error → Machine}
    {v : Machine → α → Machine} {g b : Nat} {p : α → Nat} (hx : x.Bounded g p)
    (failed : ∀ m error, (e m error).weight ≤ m.weight + b)
    (passed : ∀ m a, (v m a).weight ≤ m.weight + p a + b) :
    (m.act x e v).weight ≤ m.weight + g + b := by
  have hw := hx m.workspace
  unfold act
  cases hxw : x m.workspace with
  | ok a w =>
    simp only [hxw] at hw ⊢
    refine Nat.le_trans (passed _ a) ?_
    simp only [weight, settle]
    omega
  | error error w =>
    simp only [hxw] at hw ⊢
    refine Nat.le_trans (failed _ error) ?_
    simp only [weight, settle]
    omega

theorem weight_afterExit (m : Machine) (after : AfterExit) (result : Except Error Unit) :
    (m.afterExit after result).weight ≤ m.weight + 2 := by
  cases result with
  | ok u =>
    cases after with
    | answer reply => exact Nat.le_add_right _ _
    | blockEnd site id => cases site <;> exact Nat.le_add_right _ _
    | unwind => simp [afterExit, weight_schedule, Task.weight]
  | error e =>
    cases after with
    | answer reply => simp [afterExit, weight_fail]
    | blockEnd site id => exact Nat.le_add_right _ _
    | unwind => exact Nat.le_add_right _ _

theorem weight_afterExit_error (m : Machine) (after : AfterExit) (e : Error) :
    (m.afterExit after (.error e)).weight = m.weight := by
  cases after with
  | answer reply => exact m.weight_fail reply e
  | blockEnd site id => rfl
  | unwind => rfl

theorem weight_perform (m : Machine) (site : Site) (c : Command) :
    (m.perform site c).weight < m.weight + c.weight := by
  cases c with
  | ask q policy bind =>
    simp only [perform, Command.weight]
    split
    · exact Nat.lt_succ_self _
    · split
      · exact Nat.lt_succ_self _
      · rw [weight_fail]; exact Nat.lt_succ_self _
  | update u policy bind =>
    simp only [perform, Command.weight]
    split
    · show m.weight < _; omega
    · rename_i change hc
      have := weight_act (m := m) (b := 1) (Act.bounded_change change)
        (e := (·.fail ⟨site, policy, bind⟩))
        (v := fun m effect => m.schedule (effect.doomed.elim [] Doomed.tasks ++
          [.finish ⟨site, policy, bind⟩ effect.closing effect.answer]))
        (fun m e => by rw [weight_fail]; omega)
        (fun m a => by
          have := Doomed.weight_elim_tasks a.doomed
          simp only [weight_schedule, total_append, total_cons, total_nil, Task.weight]
          omega)
      rw [Bindings.slotCount_update hc] at this
      omega
  | popScope policy =>
    simp only [perform, popScope, Command.weight]
    split
    · rw [weight_fail]; omega
    · simp [weight_schedule, Task.weight]
  | setHook target name script =>
    simp only [perform, Command.weight]
    split
    · show m.weight < _; omega
    · rename_i r _
      have := weight_act (m := m) (b := 0) (Act.bounded_installHook r (.script name script))
        (e := abort)
        (v := fun m _ => m.deliver ⟨site, .strict, none⟩ (.ok .done))
        (fun m e => Nat.le_refl _) (fun m a => Nat.le_refl _)
      simp only [Hook.weight] at this
      omega
  | block body =>
    simp only [perform, openBlock, Command.weight]
    have := weight_act (m := m) (b := 2 + Command.listWeight body) Act.bounded_pushScope
      (e := abort)
      (v := fun m id => (m.tellAt site (.blockOpened id)).schedule
        (body.map (.perform site.inner) ++ [.leaveBlock site id]))
      (fun m e => Nat.le_add_right _ _)
      (fun m a => by
        rw [weight_schedule, weight_tellAt, total_append, Command.total_perform]
        simp only [total_cons, total_nil, Task.weight]
        omega)
    show (m.act Act.pushScope abort _).weight < _
    exact Nat.lt_of_le_of_lt this (by omega)

theorem weight_exitScope (m : Machine) (scope : ScopeId) (drained : Nat) (after : AfterExit) :
    (m.exitScope scope drained after).weight ≤ m.weight := by
  refine weight_act (g := 0) (b := 0) Act.bounded_unearthNext
    (fun m e => Nat.le_of_eq (m.weight_afterExit_error after e)) fun m next => ?_
  cases next with
  | some d =>
    have := d.weight_tasks
    simp only [weight_schedule, total_append, total_cons, total_nil, Task.weight, Option.elim]
    omega
  | none =>
    exact weight_act (g := 0) (b := 0) (Act.bounded_exitScope scope drained)
      (fun m e => Nat.le_of_eq (m.weight_afterExit_error after e))
      fun m _ => m.weight_afterExit after _

theorem light_sweepRefs (refs : List Ref) : Act.Light (sweepRefs refs) := by
  induction refs with
  | nil => exact Act.light_pure _
  | cons r rest ih =>
    unfold sweepRefs
    have give := Act.Light.bind (Act.bounded_modifyTable (g := 0)
        (f := (·.detach r.index)) fun t => Nat.le_of_eq (t.weight_detach _)) fun _ =>
      Act.Light.bind ((Act.bounded_unearth r).mono (Nat.le_refl _) fun _ => Nat.zero_le _) fun _ =>
        Act.Light.bind (Act.bounded_modifyCounters fun c => { c with leaked := c.leaked + 1 })
          fun _ => ih
    refine Act.Light.bind Act.bounded_context fun cx => ?_
    split
    · exact Act.Light.bind Act.bounded_read fun _ =>
        Act.Light.bind (Act.bounded_notify _) fun _ => give
    · exact give

theorem light_sweep : Act.Light sweep :=
  Act.Light.bind Act.bounded_context fun _ => Act.Light.bind (light_sweepRefs _) fun _ =>
    Act.Light.bind Act.bounded_context fun _ => Act.bounded_notify _

theorem weight_execute (m : Machine) (t : Task) : (m.execute t).weight < m.weight + t.weight := by
  cases t with
  | perform site c => exact m.weight_perform site c
  | runScript owner name payload script =>
    simp only [execute, weight_schedule, Command.total_perform, Task.weight]
    show m.weight + _ < _
    omega
  | releaseRefs refs =>
    cases refs with
    | nil => exact Nat.lt_succ_self _
    | cons r rest =>
      have := weight_act (m := m) (b := 1 + 2 * rest.length) (Act.bounded_decrement .heap false r)
        (e := abort)
        (v := fun m doomed => m.schedule (doomed.elim [] Doomed.tasks ++ [.releaseRefs rest]))
        (fun m e => Nat.le_add_right _ _)
        (fun m d => by
          have := Doomed.weight_elim_tasks d
          simp only [weight_schedule, total_append, total_cons, total_nil, Task.weight]
          omega)
      simp only [execute, Task.weight, List.length_cons]
      refine Nat.lt_of_le_of_lt this ?_
      simp only [Bool.false_eq_true, ↓reduceIte]
      omega
  | bury r scope hooked =>
    have := weight_act (m := m) (b := 0) (Act.light_bury r scope hooked) (e := abort)
      (v := fun m _ => m) (fun m e => Nat.le_refl _) (fun m _ => Nat.le_refl _)
    exact Nat.lt_of_le_of_lt this (Nat.lt_succ_self _)
  | finish reply closing answer => exact Nat.lt_succ_self _
  | exitScope scope drained after =>
    exact Nat.lt_succ_of_le (m.weight_exitScope scope drained after)
  | leaveBlock site id =>
    have leave (m : Machine) : (if m.context.current ≠ id then
        m.abort (.scopeMismatch id m.context.current)
      else if id = rootScope then m.abort .scopeUnderflow
      else m.schedule [.exitScope id 0 (.blockEnd site id)]).weight < m.weight + 2 := by
      split
      · exact Nat.lt_add_of_pos_right (by decide)
      · split
        · exact Nat.lt_add_of_pos_right (by decide)
        · simp [weight_schedule, Task.weight]
    have told := leave (m.tellAt site .blockClosing)
    rw [weight_tellAt] at told
    exact told
  | unwind =>
    simp only [execute, Task.weight]
    split
    · omega
    · simp [weight_schedule, Task.weight]
  | drain =>
    refine Nat.lt_succ_of_le (weight_act (g := 0) (b := 0) Act.bounded_unearthNext
      (fun m e => Nat.le_refl _) fun m next => ?_)
    cases next with
    | none => exact Nat.le_refl _
    | some d =>
      have := d.weight_tasks
      simp only [weight_schedule, total_append, total_cons, total_nil, Task.weight, Option.elim]
      omega
  | sweep =>
    exact Nat.lt_succ_of_le (weight_act (g := 0) (b := 0) light_sweep
      (fun m e => Nat.le_refl _) fun m _ => Nat.le_refl _)

theorem weight_step (m : Machine) (h : m.isFinished = false) : m.step.weight < m.weight := by
  unfold isFinished at h
  unfold step
  split
  · rename_i task rest _ hagenda
    have := ({ m with agenda := rest } : Machine).weight_execute task
    have split : m.weight = ({ m with agenda := rest } : Machine).weight + task.weight := by
      simp only [weight, hagenda, total_cons]
      omega
    omega
  · cases hf : m.fault <;> cases ha : m.agenda <;> simp_all

theorem step_of_isFinished {m : Machine} (h : m.isFinished = true) : m.step = m := by
  unfold isFinished at h
  unfold step
  split <;> simp_all

theorem steps_of_isFinished {m : Machine} (h : m.isFinished = true) (n : Nat) : m.steps n = m := by
  induction n with
  | zero => rfl
  | succ n ih => rw [steps, step_of_isFinished h, ih]

theorem isFinished_steps (m : Machine) (n : Nat) (h : m.weight ≤ n) :
    (m.steps n).isFinished = true := by
  induction n generalizing m with
  | zero =>
    cases hm : m.isFinished with
    | false =>
      have := m.weight_step hm
      omega
    | true => exact hm
  | succ n ih =>
    cases hm : m.isFinished with
    | false =>
      have := m.weight_step hm
      exact ih _ (by omega)
    | true => rw [steps_of_isFinished hm, hm]

theorem isFinished_run (m : Machine) : m.run.isFinished = true :=
  m.isFinished_steps m.weight (Nat.le_refl _)

end Machine

end ScopedHeap
