import ScopedHeap.Proofs.Insertion

/-!
# Pushing and popping

What has been pushed to a list can be popped again, in reverse order. A pop gives up the count that
the push of the same slot has added. As long as a record that a slot refers to was counted before,
or is static, that count is never the last one, so nothing is destroyed and nothing is deferred, and
in the end the context is what it was before the pushes, but for the room that the list has made
(`Machine.Makes.round_trip`).

The induction takes the first push together with the last pop: in between, all other pushes and pops
change nothing but the capacity.
-/
namespace ScopedHeap

namespace Context

/-- The references have been counted and `l` is what the record `r` holds. -/
def relist (cx : Context) (r : Ref) (refs : List Ref) (l : SlotList) : Context :=
  { cx with table := (cx.table.raiseAll refs).modifyAt r.index (Record.setPayload (.list l)) }

variable {cx : Context} {r : Ref} {refs : List Ref} {k l : SlotList}

theorem relist_relist (cx : Context) (r : Ref) (refs more : List Ref) (k l : SlotList) :
    (cx.relist r refs k).relist r more l = cx.relist r (refs ++ more) l := by
  unfold relist
  dsimp only
  rw [Table.raiseAll_setPayload, Table.modifyAt_modifyAt, ← Table.raiseAll_append]
  rfl

theorem relist_eq_self (h : cx.list r = .ok l) : cx.relist r [] l = cx := by
  obtain ⟨record, found, payload⟩ := list_eq_ok h
  rw [relist, Table.raiseAll_nil, ← payload]
  exact restore_eq found

theorem list_of_find? {record : Record} (found : cx.table.find? r = some record)
    (payload : record.payload = .list l) : cx.list r = .ok l := by
  rw [list, Context.payload, Context.find, Table.find_eq_ok_iff.mpr found]
  show record.payload.asList = .ok l
  rw [payload]
  rfl

theorem list_relist (h : (cx.table.find? r).isSome = true)
    (found : ∀ x ∈ refs, (cx.table.find? x).isSome = true) :
    (cx.relist r refs l).list r = .ok l := by
  obtain ⟨record, hr⟩ := Option.isSome_iff_exists.mp h
  have raised : (cx.table.raiseAll refs).find? r = some (record.raised (refs.count r)) := by
    rw [Table.find?_raiseAll found, hr]
    rfl
  have found' : (cx.relist r refs l).table.find? r =
      some ((record.raised (refs.count r)).setPayload (.list l)) := by
    rw [relist, Table.find?_modifyAt_of_find? raised, if_pos rfl]
  exact list_of_find? found' rfl

end Context

namespace Act

open Context

variable {w : Workspace} {cx : Context} {r : Ref} {v : Slot} {l : SlotList}

/-- A push that goes through has counted the reference of its slot and put the slot at the end. -/
theorem ends_listPush (h : w.context.list r = .ok l) :
    (listPush r v).Ends w (Either (fun _ cx => ∃ capacity,
      (∀ x ∈ [v].filterMap Slot.ref?, (w.context.table.find? x).isSome = true) ∧
      cx = w.context.relist r ([v].filterMap Slot.ref?) ⟨l.kind, l.items ++ [v], capacity⟩)
      fun _ => True) := by
  obtain ⟨record, found, payload⟩ := list_eq_ok h
  unfold listPush
  apply ends_read_bind (fun _ _ => trivial)
  intro _ _
  apply ends_read_bind (fun _ _ => trivial)
  intro _ _
  apply ends_context_bind
  apply ends_reserveList_bind (fun _ => trivial)
  intro record' l' k w₁ found' payload' grows hw₁
  obtain rfl := Option.some.inj (found.symm.trans found')
  obtain rfl := Payload.list.inj (payload.symm.trans payload')
  have found₁ : w₁.context.table.find? r = some (record.setPayload (.list k)) := by
    rw [hw₁, Table.find?_modifyAt_self found]
  have list₁ : w₁.context = w.context.relist r [] k := hw₁
  refine ends_intake found₁ (onList_eq_ok.mpr ⟨k, k.push v, rfl, rfl, rfl⟩) (fun _ => trivial) ?_
  intro w₂ can hw₂
  have list₂ : w₂.context = w₁.context.relist r ([v].filterMap Slot.ref?) (k.push v) := hw₂
  refine ends_notify ⟨k.capacity, ?_, ?_⟩
  · intro x hx
    have there := (can x hx).isSome
    rw [hw₁, Table.find?_modifyAt_of_find? found] at there
    by_cases e : x = r
    · rw [e, found]
      rfl
    · rwa [if_neg e] at there
  · rw [list₂, list₁, relist_relist, List.nil_append, SlotList.push, grows.items, grows.kind]

/-- A pop takes the last slot off, and with it the count that has been added for it. -/
theorem ends_listPop {capacity : Nat} (there : (cx.table.find? r).isSome = true)
    (held : ∀ x, v.ref? = some x → cx.table.Held x)
    (hw : w.context =
      cx.relist r ([v].filterMap Slot.ref?) ⟨l.kind, l.items ++ [v], capacity⟩) :
    (listPop r).Ends w fun a cx' =>
      a = .ok (v, none) ∧ cx' = cx.relist r [] ⟨l.kind, l.items, capacity⟩ := by
  have full : w.context.list r = .ok ⟨l.kind, l.items ++ [v], capacity⟩ := by
    rw [hw]
    apply list_relist there
    intro x hx
    obtain ⟨u, hu, hx⟩ := List.mem_filterMap.mp hx
    rw [List.mem_singleton.mp hu] at hx
    obtain ⟨record, found, _⟩ := held x hx
    rw [found]
    rfl
  have popped : SlotList.pop ⟨l.kind, l.items ++ [v], capacity⟩ =
      .ok (v, ⟨l.kind, l.items, capacity⟩) := by
    simp [SlotList.pop]
  obtain ⟨record, found, payload⟩ := list_eq_ok full
  unfold listPop
  apply ends_updatePayload_bind
  · intro e none
    exact absurd (onList_eq_ok.mpr ⟨_, _, payload, popped, rfl⟩) (none record v _ found)
  · intro record' u q w₁ found' passed hw₁
    obtain rfl := Option.some.inj (found.symm.trans found')
    obtain ⟨k, k', hk, taken, rfl⟩ := onList_eq_ok.mp passed
    obtain rfl := Payload.list.inj (payload.symm.trans hk)
    obtain ⟨rfl, rfl⟩ := Prod.mk.inj (Except.ok.inj (popped.symm.trans taken))
    have list₁ : w₁.context =
        cx.relist r ([v].filterMap Slot.ref?) ⟨l.kind, l.items, capacity⟩ := by
      have again : w₁.context = w.context.relist r [] ⟨l.kind, l.items, capacity⟩ := hw₁
      rw [again, hw, relist_relist, List.append_nil]
    -- the count of the slot has been added to the table that the pop ends in
    have table : w₁.context.table =
        (cx.relist r [] ⟨l.kind, l.items, capacity⟩).table.raiseAll ([v].filterMap Slot.ref?) := by
      rw [list₁]
      exact (Table.raiseAll_setPayload _ _ _ _).symm
    refine (ends_dropSlot_raise table fun x hx => (held x hx).setPayload r.index _).map _ ?_ ?_
    · rintro e cx' ⟨fails, _⟩
      cases fails
    · rintro doomed cx' ⟨none, rfl⟩
      obtain rfl := Except.ok.inj none
      rw [list₁]
      exact ⟨rfl, rfl⟩

end Act

namespace Machine

open Context

variable {m m' : Machine} {c : Change} {cs : List Change} {answers more : List Answer}
  {P Q : Machine → Prop} {site : Site} {rest : List Task} {policy : Policy} {bind : Option String}
  {u : WrittenUpdate} {answer : Answer} {n : Nat}

/-- The machine makes the changes one after the other, and none of them is answered with an
error. -/
inductive Makes : List Change → Machine → Machine → Prop
  | done {m : Machine} (running : m.fault = none) : Makes [] m m
  | next {m m' : Machine} {c : Change} {cs : List Change} {site : Site} {u : WrittenUpdate}
      {policy : Policy} {bind : Option String} {rest : List Task} {n : Nat} {answer : Answer}
      (agenda : m.agenda = .perform site (.update u policy bind) :: rest)
      (read : m.bindings.update u = .ok c) (returns : Returns rest m n site (.ok answer))
      (later : Makes cs (m.steps n) m') : Makes (c :: cs) m m'

/-- Whenever the next commands make the change `c`, they get these answers one after the other,
nothing is allocated, destroyed or deferred by them, and `P` holds in the end. -/
def Gives (c : Change) (P : Machine → Prop) : List Answer → Machine → Prop
  | [], m => P m
  | answer :: answers, m => ∀ site u policy bind rest,
      m.agenda = .perform site (.update u policy bind) :: rest → m.bindings.update u = .ok c →
      ∃ n, Returns rest m n site (.ok answer) ∧
        (m.steps n).context.counters = m.context.counters ∧ Gives c P answers (m.steps n)

theorem Gives.append (h : Gives c Q answers m) (last : ∀ m, Q m → Gives c P more m) :
    Gives c P (answers ++ more) m := by
  induction answers generalizing m with
  | nil => exact last m h
  | cons answer answers ih =>
    intro site u policy bind rest agenda read
    obtain ⟨n, returns, counters, later⟩ := h site u policy bind rest agenda read
    exact ⟨n, returns, counters, ih later⟩

theorem Gives.mono (h : Gives c Q answers m) (imp : ∀ m, Q m → P m) : Gives c P answers m := by
  rw [← List.append_nil answers]
  exact h.append imp

theorem Returns.context_of_change {R : Context → Prop}
    (agenda : m.agenda = .perform site (.update u policy bind) :: rest)
    (read : m.bindings.update u = .ok c)
    (ends : (Act.change c).Ends m.workspace (Act.Either
      (fun effect cx => effect.doomed = none ∧ R cx) fun _ => True))
    (h : Returns rest m n site (.ok answer)) : R (m.steps n).context := by
  have running := h.completes.running
  obtain ⟨k, rfl, later⟩ := h.step agenda
  obtain ⟨effect, ⟨unharmed, made⟩, next⟩ := later.changed agenda read ends running
  rw [unharmed, Option.elim_none, List.nil_append] at next
  -- all that is left to do is to tell the answer
  obtain ⟨j, rfl, last⟩ := later.completes.next next
  have told := step_eq later.completes.running next
  obtain rfl := last.eq_zero (by rw [told]; rfl)
  rw [steps, steps, told]
  exact made

theorem returns_of_ends {cx : Context} {closing : List Notice} (running : m.fault = none)
    (agenda : m.agenda = .perform site (.update u policy bind) :: rest)
    (read : m.bindings.update u = .ok c)
    (ends : (Act.change c).Ends m.workspace fun a cx' =>
      a = .ok ⟨answer, none, closing⟩ ∧ cx' = cx) :
    ∃ n, Returns rest m n site (.ok answer) ∧ (m.steps n).context = cx := by
  have made : m.step.context = cx ∧ m.step.fault = none ∧
      m.step.agenda = .finish ⟨site, policy, bind⟩ closing answer :: rest := by
    rw [step_eq running agenda]
    unfold execute perform
    dsimp only
    rw [read]
    dsimp only
    apply act_cases (m := { m with agenda := rest }) (Q := fun m' => m'.context = cx ∧
      m'.fault = none ∧ m'.agenda = .finish ⟨site, policy, bind⟩ closing answer :: rest) ends
    · rintro e w _ ⟨fails, _⟩
      cases fails
    · rintro effect w _ ⟨same, context⟩
      obtain rfl := Except.ok.inj same
      exact ⟨context, running, rfl⟩
  obtain ⟨context, running', next⟩ := made
  have last : Completes (.finish ⟨site, policy, bind⟩ closing answer :: rest) m.step 0 :=
    .done next running'
  obtain ⟨returns, same⟩ := last.returns
  exact ⟨2, ⟨@Completes.step _ _ _ [] _ agenda running returns.completes, returns.tells⟩,
    same.trans context⟩

/-- A change that is not allowed to fail is answered without an error, or the program is stopped. -/
theorem Returns.ok_of_strict {outcome : Outcome} (sound : m.context.Sound)
    (agenda : m.agenda = .perform site (.update u .strict bind) :: rest)
    (h : Returns rest m n site outcome) : ∃ answer, outcome = .ok answer := by
  have running := h.completes.running
  obtain ⟨k, rfl, later⟩ := h.step agenda
  have after := sound_step sound
  revert later after
  rw [step_eq running agenda]
  unfold execute perform
  dsimp only
  cases m.bindings.update u with
  | error f => exact fun h _ => absurd h.completes.running (Option.some_ne_none f)
  | ok c =>
    apply act_elim (m := { m with agenda := rest }) (Q := fun m' =>
      Returns rest m' k site outcome → m'.context.Sound → ∃ answer, outcome = .ok answer)
    · exact fun e w h _ => absurd h.completes.running (Option.some_ne_none _)
    · intro effect w h after
      have told := h.completes.finishes after (List.append_assoc _ _ _)
      exact ⟨effect.answer, h.tells.unique told⟩

theorem run_steps (m : Machine) (n : Nat) : (m.steps n).run = m.run := by
  induction n generalizing m with
  | zero => rfl
  | succ n ih => exact (ih m.step).trans m.run_step

/-- A run that is not stopped makes all changes that are not allowed to fail. -/
theorem makes_of_running (us : List WrittenUpdate) (cs : List Change) (sound : m.context.Sound)
    (running : m.run.fault = none)
    (agenda : m.agenda = us.map (fun u => .perform site (.update u .strict none)) ++ rest)
    (read : List.Forall₂ (fun u c => ∀ b : Bindings, b.update u = .ok c) us cs) :
    ∃ m', Makes cs m m' ∧ m'.agenda = rest := by
  induction read generalizing m with
  | nil =>
    refine ⟨m, .done ?_, agenda⟩
    cases fault : m.fault with
    | none => rfl
    | some f =>
      have stops : Stops rest m := .now (by simp [fault])
      exact absurd running stops.fault_run
  | @cons u c us cs first _ ih =>
    rcases (terminates_of_sound sound).operation _ _ _ agenda with stops | ⟨n, _, outcome, returns⟩
    · exact absurd running stops.fault_run
    · obtain ⟨answer, rfl⟩ := returns.ok_of_strict sound agenda
      rw [← m.run_steps n] at running
      obtain ⟨m', later, ended⟩ := ih (sound_steps sound n) running returns.completes.ended.1
      exact ⟨m', .next agenda (first _) returns later, ended⟩

/-- The machine runs, and has the context `cx` but for the capacity of the list `r`. -/
def Restores (cx : Context) (r : Ref) (l : SlotList) (m : Machine) : Prop :=
  m.fault = none ∧ ∃ capacity, m.context = cx.relist r [] { l with capacity }

theorem gives_listPop {cx : Context} {r : Ref} {v : Slot} {l : SlotList} {capacity : Nat}
    (running : m.fault = none) (there : (cx.table.find? r).isSome = true)
    (held : ∀ x, v.ref? = some x → cx.table.Held x)
    (pushed : m.context =
      cx.relist r ([v].filterMap Slot.ref?) ⟨l.kind, l.items ++ [v], capacity⟩) :
    Gives (.listPop r) (Restores cx r l) [.slot v] m := by
  intro site u policy bind rest agenda read
  have ends : (Act.change (.listPop r)).Ends m.workspace fun a cx' =>
      a = .ok ⟨.slot v, none, [.popped r]⟩ ∧ cx' = cx.relist r [] { l with capacity } := by
    refine (Act.ends_listPop (w := m.workspace) there held pushed).map _ ?_ ?_
    · rintro e cx' ⟨fails, _⟩
      cases fails
    · rintro a cx' ⟨same, context⟩
      obtain rfl := Except.ok.inj same
      exact ⟨rfl, context⟩
  obtain ⟨n, returns, context⟩ := returns_of_ends running agenda read ends
  refine ⟨n, returns, ?_, returns.completes.ended.2, capacity, context⟩
  rw [context, pushed]
  rfl

/-- What pushes to a list have put there can be popped, last things first, and then the list is as
it was before, but for its capacity. -/
theorem Makes.gives_pops {r : Ref} {vs : List Slot} {l : SlotList}
    (h : Makes (vs.map (.listPush r)) m m') (list : m.context.list r = .ok l)
    (held : ∀ v ∈ vs, ∀ x, v.ref? = some x → m.context.table.Held x) :
    Gives (.listPop r) (Restores m.context r l) (vs.reverse.map .slot) m' := by
  induction vs generalizing m l with
  | nil =>
    cases h with
    | done running => exact ⟨running, l.capacity, (relist_eq_self list).symm⟩
  | cons v vs ih =>
    cases h with
    | next agenda read returns later =>
      have ends : (Act.change (.listPush r v)).Ends m.workspace (Act.Either
          (fun effect cx => effect.doomed = none ∧ ∃ capacity,
            (∀ x ∈ [v].filterMap Slot.ref?, (m.context.table.find? x).isSome = true) ∧
            cx = m.context.relist r ([v].filterMap Slot.ref?) ⟨l.kind, l.items ++ [v], capacity⟩)
          fun _ => True) :=
        (Act.ends_listPush (w := m.workspace) list).map _ (fun _ _ h => h)
          fun _ _ h => ⟨rfl, h⟩
      obtain ⟨capacity, found, pushed⟩ := returns.context_of_change agenda read ends
      obtain ⟨record, hr, _⟩ := list_eq_ok list
      have there : (m.context.table.find? r).isSome = true := by
        rw [hr]
        rfl
      have list' := list_relist (l := ⟨l.kind, l.items ++ [v], capacity⟩) there found
      rw [← pushed] at list'
      have pops := ih later list' ?_
      · rw [List.reverse_cons, List.map_append]
        refine pops.append ?_
        rintro m₂ ⟨running, capacity', same⟩
        rw [pushed, relist_relist, List.append_nil] at same
        exact gives_listPop running there (held v List.mem_cons_self) same
      · intro u hu x hx
        rw [pushed]
        exact ((held u (List.mem_cons_of_mem _ hu) x hx).raiseAll _).setPayload _ _

/-- Pushes and pops of a list cancel out: if pushes of slots are all answered without an error, and
the slots refer to records that were static or counted before, then as many pops give the slots back
in reverse order, and leave everything as it was but for the capacity of the list. -/
theorem round_trip {r : Ref} {vs : List Slot} {l : SlotList} (list : m.context.list r = .ok l)
    (held : ∀ v ∈ vs, ∀ x, v.ref? = some x → m.context.table.Held x)
    (pushed : Makes (vs.map (.listPush r)) m m') :
    Gives (.listPop r) (fun popped => ∃ capacity, popped.context = { m.context with
        table := m.context.table.modifyAt r.index (Record.setPayload (.list { l with capacity })) })
      (vs.reverse.map .slot) m' :=
  (pushed.gives_pops list held).mono fun _ h => h.2

/-- The string at 3 twice, and between that a static record, a null and the list at 2. -/
def juggled : List Slot := [.object (some ⟨3, 0⟩), .object (some ⟨0, 0⟩), .object none,
  .object (some ⟨2, 0⟩), .object (some ⟨3, 0⟩)]

def juggles : List WrittenUpdate :=
  [Operand.ref ⟨3, 0⟩, .ref ⟨0, 0⟩, .null, .ref ⟨2, 0⟩, .ref ⟨3, 0⟩].map fun o =>
    .listPush (.ref ⟨2, 0⟩) (.object o)

/-- From an inner scope a list takes in itself and other things, and gives them back. -/
def juggling : Machine :=
  (start {} .ample ([.update (.newList .object []) .strict none,
    .update (.newStr [97]) .strict none, .update .pushScope .strict none] ++
    juggles.map (.update · .strict none) ++
    List.replicate 5 (.update (.listPop (.ref ⟨2, 0⟩)) .checked none))).steps 6

theorem round_trip_juggling : ∃ m', Makes (juggled.map (.listPush ⟨2, 0⟩)) juggling m' ∧
    m'.agenda = List.replicate 5
      (.perform .program (.update (.listPop (.ref ⟨2, 0⟩)) .checked none)) ∧
    Gives (.listPop ⟨2, 0⟩) (fun popped => ∃ capacity, popped.context = { juggling.context with
        table := juggling.context.table.modifyAt 2
          (Record.setPayload (.list ⟨.object, [], capacity⟩)) })
      (juggled.reverse.map .slot) m' := by
  have reachable : juggling.Reachable := (Reachable.start _ _ _).steps 6
  have held : ∀ v ∈ juggled, ∀ x ∈ v.ref?, juggling.context.table.Held x := by decide +kernel
  obtain ⟨m', pushed, next⟩ := makes_of_running juggles (juggled.map (.listPush ⟨2, 0⟩))
    reachable.sound (by decide +kernel) rfl
    (.cons (fun _ => rfl) (.cons (fun _ => rfl) (.cons (fun _ => rfl)
      (.cons (fun _ => rfl) (.cons (fun _ => rfl) .nil)))))
  exact ⟨m', pushed, next, round_trip rfl held pushed⟩

end Machine

end ScopedHeap
