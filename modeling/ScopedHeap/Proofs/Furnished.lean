import ScopedHeap.Proofs.Destruction

/-!
# Containers release their slots

A container is furnished if it has the hook that releases its slots, and is not static. Containers
are born so, and stay so as long as no payload is exchanged by hand: the tasks that are left for a
record which is taken out of the table then give up exactly the references that it held.
-/
namespace ScopedHeap

theorem Payload.isContainer_eq {p q : Payload} (h : p.kind = q.kind) :
    p.isContainer = q.isContainer := by
  cases p <;> cases q <;> first | rfl | cases h

theorem Payload.refs_of_plain {p : Payload} (h : p.isContainer = false) : p.refs = [] := by
  cases p with
  | raw | str | text => rfl
  | list | dict | set => cases h

/-- A container has the hook that releases its slots, and is not static. -/
def Record.Furnished (r : Record) : Prop :=
  r.payload.isContainer = true → r.header.hook = some (.releaseSlots r.payload.kind) ∧
    r.header.creationScope ≠ staticScope

/-- Deeds that keep containers furnished. -/
def Deed.Faithful : Deed → Prop
  | store _ old new => new.kind = old.kind
  | allocateStatic _ payload => payload.isContainer = false
  | _ => True

def Task.inFlight : Task → List Ref
  | .releaseRefs refs => refs
  | _ => []

/-- References that are no longer in a slot but have not been given up yet. -/
def inFlight (tasks : List Task) : List Ref := tasks.flatMap Task.inFlight

theorem inFlight_cons (t : Task) (tasks : List Task) :
    inFlight (t :: tasks) = t.inFlight ++ inFlight tasks := rfl

theorem inFlight_append (tasks rest : List Task) :
    inFlight (tasks ++ rest) = inFlight tasks ++ inFlight rest := List.flatMap_append

theorem inFlight_concat (tasks : List Task) (t : Task) :
    inFlight (tasks ++ [t]) = inFlight tasks ++ t.inFlight := by
  rw [inFlight_append, inFlight_cons]
  exact congrArg _ (List.append_nil _)

theorem inFlight_eq_nil {tasks : List Task} (h : ∀ t ∈ tasks, t.inFlight = []) :
    inFlight tasks = [] := List.flatMap_eq_nil_iff.mpr h

theorem inFlight_map_perform (site : Site) (cs : List Command) :
    inFlight (cs.map (.perform site)) = [] := by
  apply inFlight_eq_nil
  intro t ht
  rcases List.mem_map.mp ht with ⟨c, _, rfl⟩
  rfl

/-- The tasks of a furnished record give up the references that it held. -/
theorem Doomed.inFlight_tasks (d : Doomed) (h : d.record.Furnished) :
    inFlight d.tasks = d.refs := by
  unfold Doomed.tasks
  dsimp only
  by_cases container : d.record.payload.isContainer = true
  · rw [(h container).1]
    simp [inFlight, Task.inFlight, Doomed.refs]
  · have refs : d.refs = [] := Payload.refs_of_plain (by simpa using container)
    have held : d.record.payload.refs = [] := refs
    split
    · simp [inFlight, Task.inFlight, refs]
    · split <;> simp [inFlight, Task.inFlight, refs, held]
    · simp [inFlight, Task.inFlight, refs]

namespace Context

variable {cx cx' : Context} {d : Deed} {ds : List Deed}

def Furnished (cx : Context) : Prop := ∀ x record, cx.table.bare x = some record → record.Furnished

theorem Move.furnished (move : Move cx d cx') (sound : cx.Sound) (h : cx.Furnished)
    (faithful : d.Faithful) : cx'.Furnished := by
  intro x record hx
  have fate := move.fate sound x
  have before := h x
  rw [hx] at fate
  generalize cx.table.bare x = content at fate before
  cases fate with
  | same => exact before _ rfl
  | @raised old | @lowered old | @kept old | @deferred old => exact before old rfl
  | @hooked old hook free =>
    intro container
    rw [(before old rfl container).1] at free
    cases free
  | @stored old payload =>
    intro container
    have kind : payload.kind = old.payload.kind := faithful
    have old := before old rfl ((Payload.isContainer_eq kind).symm.trans container)
    rw [← kind] at old
    exact old
  | allocated plain =>
    intro container
    rw [plain] at container
    cases container
  | furnished => exact fun _ => ⟨rfl, Nat.ne_of_gt sound.numbered.pos⟩
  | settled =>
    intro container
    have plain : _ = false := faithful
    rw [plain] at container
    cases container

theorem Move.furnished_removed {e : Doomed} (move : Move cx d cx') (sound : cx.Sound)
    (h : cx.Furnished) (he : d.removed? = some e) : e.record.Furnished := by
  rcases move.bare_of_removed sound he with ⟨old, hold, payload, hook, scope⟩
  have furnished := h e.ref old hold
  unfold Record.Furnished at furnished ⊢
  rw [payload, hook, scope]
  exact furnished

theorem Path.furnished (path : Path cx ds cx') (sound : cx.Sound) (h : cx.Furnished)
    (faithful : ∀ d ∈ ds, d.Faithful) :
    cx'.Furnished ∧ ∀ d ∈ ds, ∀ e, d.removed? = some e → e.record.Furnished :=
  path.along (fun move sound h faithful =>
    ⟨move.furnished sound h faithful, fun _ he => move.furnished_removed sound h he⟩)
    sound h faithful

end Context

end ScopedHeap
