import Mathlib.Data.List.Perm.Lattice
import ScopedHeap.Proofs.Reachable

/-!
# The destruction queues

In every state that any program reaches, also while hooks run, the queues of all levels together
have each pending record once and nothing else, each of them in the queue of its home scope and with
no count left. A level is taken off only when its queue is empty.
-/
namespace ScopedHeap

def Table.pendingCount (t : Table) : Nat :=
  (List.range t.cells.size).countP fun i => (t.recordAt? i).any (·.header.state = .pending)

namespace Context

variable {cx cx' : Context} {r : Ref} {d : Deed} {ds : List Deed}

theorem isPending_iff : cx.isPending r = true ↔
    ∃ shown, cx.table.bare r = some shown ∧ shown.header.state = .pending := by
  unfold isPending Table.bare
  cases cx.table.find? r with
  | none => simp
  | some record => simp

theorem Sound.mem_waiting_iff (h : cx.Sound) : r ∈ cx.scopes.waiting ↔ cx.isPending r = true := by
  rw [isPending_iff]
  constructor
  · intro hr
    rcases h.exists_bare_of_waiting hr with ⟨shown, hshown, pending, _⟩
    exact ⟨shown, hshown, pending⟩
  · rintro ⟨shown, hshown, pending⟩
    exact h.pending r shown hshown pending

/-- The record was created in the scope and waits for its destruction. -/
def Waits (cx : Context) (scope : ScopeId) (r : Ref) : Prop :=
  ∃ shown, cx.table.bare r = some shown ∧ shown.header.state = .pending ∧
    shown.header.creationScope = scope

/-- The queue of a level has the records of its scope that wait. -/
theorem Sound.mem_queue_iff (h : cx.Sound) {level : Level} (hlevel : level ∈ cx.scopes.levels) :
    r ∈ level.queue ↔ cx.Waits level.id r := by
  rw [ScopeStack.levels, List.mem_reverse] at hlevel
  constructor
  · intro hr
    obtain ⟨shown, there, pending, scope, _⟩ := h.filed level hlevel r hr
    exact ⟨shown, there, pending, scope⟩
  · rintro ⟨shown, there, pending, scope⟩
    obtain ⟨home, hhome, hr⟩ := List.mem_flatMap.mp (h.pending r shown there pending)
    obtain ⟨other, there', _, scope', _⟩ := h.filed home hhome r hr
    cases there.symm.trans there'
    rwa [h.numbered.eq_of_id_eq hlevel hhome (scope.symm.trans scope')]

theorem Sound.count_waiting (h : cx.Sound) (r : Ref) :
    cx.scopes.waiting.count r = if cx.isPending r then 1 else 0 := by
  rw [h.once.count]
  simp only [h.mem_waiting_iff]

theorem Sound.index_injOn_waiting (h : cx.Sound) : ∀ r ∈ cx.scopes.waiting,
    ∀ x ∈ cx.scopes.waiting, r.index = x.index → r = x := by
  intro r hr x hx hi
  rcases h.exists_bare_of_waiting hr with ⟨_, hr, _⟩
  rcases h.exists_bare_of_waiting hx with ⟨_, hx, _⟩
  by_contra hne
  exact index_ne_of_ne hx hr hne hi

theorem Sound.pending_eq (h : cx.Sound) : cx.scopes.pending = cx.table.pendingCount := by
  have nodup : (cx.scopes.waiting.map Ref.index).Nodup :=
    List.Nodup.map_on h.index_injOn_waiting h.once
  have perm : (cx.scopes.waiting.map Ref.index).Perm ((List.range cx.table.cells.size).filter
      fun i => (cx.table.recordAt? i).any (·.header.state = .pending)) := by
    rw [List.perm_ext_iff_of_nodup nodup (List.nodup_range.filter _)]
    intro i
    rw [List.mem_map, List.mem_filter, List.mem_range]
    constructor
    · rintro ⟨r, hr, rfl⟩
      rcases h.exists_bare_of_waiting hr with ⟨shown, hshown, pending, _⟩
      rcases Table.bare_eq_some_iff.mp hshown with ⟨record, found, rfl⟩
      have there := (Table.find?_eq_some.mp found).2
      refine ⟨Table.lt_size_of_recordAt? there, ?_⟩
      rw [there]
      simpa using pending
    · rintro ⟨_, pending⟩
      cases there : cx.table.recordAt? i with
      | none =>
        rw [there] at pending
        cases pending
      | some record =>
        rcases Table.exists_find? there with ⟨r, hi, found⟩
        rw [there] at pending
        refine ⟨r, h.pending r record.core (Table.bare_of_find? found) ?_, hi⟩
        simpa using pending
  rw [← ScopeStack.length_waiting, Table.pendingCount, List.countP_eq_length_filter,
    ← perm.length_eq, List.length_map]

theorem Move.depth_le (move : Move cx d cx') (stays : d ≠ .leave) :
    cx.scopes.depth ≤ cx'.scopes.depth := by
  cases move with
  | raise | raiseStatic | lower | lowerStatic | keep | destroy | drain | allocate
  | allocateContainer | allocateStatic | hook | store | bury | sweep => exact Nat.le_refl _
  | defer => exact Nat.le_of_eq (ScopeStack.depth_defer _ _ _).symm
  | enter => exact Nat.le_succ _
  | leave => exact absurd rfl stays

theorem Path.depth_le (path : Path cx ds cx') (stays : .leave ∉ ds) :
    cx.scopes.depth ≤ cx'.scopes.depth := by
  induction path with
  | refl => exact Nat.le_refl _
  | move first _ ih =>
    rw [List.mem_cons, not_or] at stays
    rcases stays with ⟨hne, stays⟩
    exact (first.depth_le (Ne.symm hne)).trans (ih stays)

theorem Sound.unearthNext_ne_error (h : cx.Sound) (journal : List Notice) (grants : Grants)
    (e : Error) (w : Workspace) : Act.unearthNext ⟨cx, journal, grants⟩ ≠ .error e w := by
  apply Act.Ends.ne_error
  exact Act.ends_unearthNext h (fun _ => ⟨none, rfl⟩) fun r _ gone _ _ _ => ⟨some ⟨r, gone⟩, rfl⟩

end Context

/-- A level is taken off by nothing but the exit of a scope, and its queue is empty then. -/
theorem Turn.leave {cx cx' : Context} {grants : Grants} {b : Bindings} {t : Task} {ds : List Deed}
    {new : List Task} {fault : Option Fault} (turn : Turn cx grants b t ds cx' new fault)
    (shallower : cx'.scopes.depth < cx.scopes.depth) :
    cx.scopes.active.queue = [] ∧ cx.scopes.pop = .ok (cx.scopes.active, cx'.scopes) := by
  have stuck : ∀ {P : Prop}, .leave ∉ ds → P := fun stays =>
    absurd (turn.path.depth_le stays) (Nat.not_le_of_lt shallower)
  cases turn with
  | asked | unbound | outermost | popping | unhooked | scripted | released | stuck | finished
  | bottom | closing | mismatched | unwound | unwinding | drained => exact stuck (by simp)
  | hooked | opened | buried | exiting | draining => exact stuck (by simp)
  | changed _ _ _ completed => exact stuck fun leaves => completed.permitted _ leaves
  | refused _ _ _ failed => exact stuck fun leaves => failed.permitted _ leaves
  | releasing _ _ _ conduct => exact stuck fun leaves => conduct.ordinary _ leaves
  | swept _ sweeps =>
    refine stuck fun leaves => ?_
    rcases sweeps _ leaves with ⟨x, hx⟩
    cases hx
  | left move =>
    cases move with
    | leave empty popped =>
      refine ⟨empty, ?_⟩
      rw [popped, (ScopeStack.pop_spec popped).1]

namespace Machine

theorem perm_levels (s : ScopeStack) : (s.levels.flatMap Level.queue).Perm s.waiting :=
  List.Perm.flatMap_right _ (List.reverse_perm _)

/-- No destruction that has been put off is lost, duplicated or misfiled. -/
theorem Reachable.queues {m : Machine} (h : m.Reachable) :
    (∀ r, (m.context.scopes.levels.flatMap Level.queue).count r =
      if m.context.isPending r then 1 else 0) ∧
    (∀ level ∈ m.context.scopes.levels, ∀ r ∈ level.queue, ∃ record,
      m.context.table.find? r = some record ∧ record.header.creationScope = level.id ∧
        record.header.refcount = 0) ∧
    (m.step.context.scopes.depth < m.context.scopes.depth → m.context.scopes.active.queue = [] ∧
      m.context.scopes.pop = .ok (m.context.scopes.active, m.step.context.scopes)) ∧
    m.context.stats.pending = m.context.table.pendingCount ∧
    ∀ journal grants e w, Act.unearthNext ⟨m.context, journal, grants⟩ ≠ .error e w := by
  have sound := h.sound
  refine ⟨?_, ?_, ?_, sound.pending_eq, ?_⟩
  · intro r
    rw [(perm_levels _).count_eq, sound.count_waiting]
  · intro level hlevel r hr
    rcases sound.filed level (List.mem_reverse.mp hlevel) r hr with ⟨shown, hshown, _, scope, count⟩
    rcases Table.bare_eq_some_iff.mp hshown with ⟨record, found, rfl⟩
    exact ⟨record, found, scope, count⟩
  · intro shallower
    rcases m.step_cases with same | ⟨running, t, rest, next⟩
    · rw [same] at shallower
      exact absurd shallower (Nat.lt_irrefl _)
    · rcases turn_step sound running next with ⟨ds, new, turn, _⟩
      exact turn.leave shallower
  · exact sound.unearthNext_ne_error

/-- A record of the outer of two scopes is given up in the inner one, which is left then. -/
def deferral : Machine :=
  (start {} .ample [.update .pushScope .strict none, .update (.newStr []) .strict none,
    .update .pushScope .strict none, .update (.decrement .heap false (.ref ⟨2, 0⟩)) .strict none,
    .popScope .strict, .popScope .strict]).steps 11

theorem queues_deferral :
    (deferral.context.scopes.levels.flatMap Level.queue).count ⟨2, 0⟩ = 1 ∧
      deferral.context.stats.pending = deferral.context.table.pendingCount := by
  have queues := ((Reachable.start _ _ _).steps 11 : deferral.Reachable).queues
  exact ⟨(queues.1 ⟨2, 0⟩).trans (by decide), queues.2.2.2.1⟩

end Machine

end ScopedHeap
