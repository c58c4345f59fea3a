import ScopedHeap.Proofs.Queues

/-!
# When records are destroyed

A record leaves the table with no count left, while its home scope or an enclosing one runs; if it
comes out of a queue it is its home scope that runs. `Machine.doomed?` is the record that the next
step takes out of the table.
-/
namespace ScopedHeap

def Deed.removed? : Deed → Option Doomed
  | destroy d | drain d | sweep d => some d
  | _ => none

namespace Context

variable {cx cx' : Context} {d : Deed} {ds : List Deed} {x : Ref}

theorem Move.current_eq (move : Move cx d cx') (enter : d ≠ .enter) (leave : d ≠ .leave) :
    cx'.current = cx.current := by
  cases move with
  | raise | raiseStatic | lower | lowerStatic | keep | destroy | drain | allocate
  | allocateContainer | allocateStatic | hook | store | bury | sweep => rfl
  | defer => exact ScopeStack.current_defer _ _ _
  | enter => exact absurd rfl enter
  | leave => exact absurd rfl leave

theorem Path.current_eq (path : Path cx ds cx') (stays : ∀ d ∈ ds, d ≠ .enter ∧ d ≠ .leave) :
    cx'.current = cx.current := by
  induction path with
  | refl => rfl
  | move first _ ih =>
    rcases stays _ List.mem_cons_self with ⟨enter, leave⟩
    rw [ih fun d hd => stays d (List.mem_cons_of_mem _ hd), first.current_eq enter leave]

theorem Move.removed (move : Move cx d cx') (h : cx.Sound) (found : (cx.table.bare x).isSome)
    (gone : cx'.table.bare x = none) : ∃ record, d.removed? = some ⟨x, record⟩ := by
  have fate := move.fate h x
  rw [gone] at fate
  generalize cx.table.bare x = before at fate found
  cases fate with
  | same => cases found
  | destroyed => exact ⟨_, rfl⟩
  | drained => exact ⟨_, rfl⟩
  | swept => exact ⟨_, rfl⟩

theorem Move.bare_of_removed {e : Doomed} (move : Move cx d cx') (h : cx.Sound)
    (he : d.removed? = some e) : ∃ old, cx.table.bare e.ref = some old ∧
      e.record.payload = old.payload ∧ e.record.header.hook = old.header.hook ∧
      e.record.header.creationScope = old.header.creationScope := by
  cases move with
  | raise | raiseStatic | lower | lowerStatic | keep | defer | allocate | allocateContainer
  | allocateStatic | hook | store | enter | leave | bury => cases he
  | @destroy r record gone table found tracked last inner removed =>
    cases he
    rcases h.removed_of_last found removed with ⟨_, shown⟩
    have fields : ∀ {α : Type} (g : Record → α), g gone.core = g (record.core.setRefcount 0) :=
      fun g => congrArg g shown
    exact ⟨record.core, Table.bare_of_find? found, fields Record.payload,
      fields (·.header.hook), fields (·.header.creationScope)⟩
  | @drain r rest gone table queue removed =>
    cases he
    have found := (Table.remove_spec h.vacant removed).1.found
    exact ⟨gone.core, Table.bare_of_find? found, rfl, rfl, rfl⟩
  | @sweep r rest gone table first removed =>
    cases he
    have spec := (Table.remove_spec (h.vacant.relink (cx.table.relinks_detach r.index)) removed).1
    have shown := Table.bare_of_find? spec.found
    rw [Table.bare_detach] at shown
    exact ⟨gone.core, shown, rfl, rfl, rfl⟩

/-- What is missing at the end of a path has been taken out on the way. -/
theorem Path.removed (path : Path cx ds cx') (h : cx.Sound) (found : (cx.table.bare x).isSome)
    (gone : cx'.table.bare x = none) : ∃ d ∈ ds, ∃ record, d.removed? = some ⟨x, record⟩ := by
  induction path with
  | refl =>
    rw [gone] at found
    cases found
  | @move a b c d ds first rest ih =>
    cases hb : b.table.bare x with
    | none => exact ⟨d, List.mem_cons_self, first.removed h found hb⟩
    | some shown =>
      rcases ih (first.sound h) (by rw [hb]; rfl) gone with ⟨e, he, removed⟩
      exact ⟨e, List.mem_cons_of_mem _ he, removed⟩

theorem Move.pending (move : Move cx d cx') (h : cx.Sound) {old : Record}
    (hold : cx.table.bare x = some old) (pending : old.header.state = .pending) :
    (∃ new, cx'.table.bare x = some new ∧ new.header.state = .pending) ∨
      ∃ record, d.removed? = some ⟨x, record⟩ := by
  have fate := move.fate h x
  have zero := h.refcount_of_pending hold pending
  rw [hold] at fate
  generalize cx'.table.bare x = after at fate
  cases fate with
  | same => exact Or.inl ⟨old, rfl, pending⟩
  | raised _ awake => exact absurd pending awake
  | lowered _ count | kept _ count =>
    rw [zero] at count
    cases count
  | deferred _ last | destroyed _ last =>
    rw [zero] at last
    cases last
  | hooked => exact Or.inl ⟨_, rfl, pending⟩
  | stored => exact Or.inl ⟨_, rfl, pending⟩
  | drained | swept => exact Or.inr ⟨_, rfl⟩

theorem Path.pending (path : Path cx ds cx') (h : cx.Sound) {old : Record}
    (hold : cx.table.bare x = some old) (pending : old.header.state = .pending)
    (stays : ∀ d ∈ ds, d.removed? = none) :
    ∃ new, cx'.table.bare x = some new ∧ new.header.state = .pending := by
  induction path generalizing old with
  | refl => exact ⟨old, hold, pending⟩
  | move first _ ih =>
    rcases first.pending h hold pending with ⟨new, hnew, pending⟩ | ⟨record, removed⟩
    · exact ih (first.sound h) hnew pending fun d hd => stays d (List.mem_cons_of_mem _ hd)
    · rw [stays _ List.mem_cons_self] at removed
      cases removed

theorem Move.destroyed {d : Doomed} (move : Move cx (.destroy d) cx') (h : cx.Sound) :
    d.record.header.refcount = 0 ∧ cx.current ≤ d.record.header.creationScope ∧
      cx'.table.find? d.ref = none ∧ cx.isPending d.ref = false := by
  cases move with
  | @destroy r record gone table found tracked last inner removed =>
    rcases h.removed_of_last found removed with ⟨spec, shown⟩
    have scope : gone.header.creationScope = record.header.creationScope :=
      congrArg (fun s => s.header.creationScope) shown
    have live := h.live_of_counted (Table.bare_of_find? found) tracked (by simp [last])
    refine ⟨congrArg (fun s => s.header.refcount) shown, ?_, (spec.find? r).trans (if_pos rfl), ?_⟩
    · rw [scope]
      exact inner
    · rw [Record.state_core] at live
      simp [isPending, found, live]

theorem Move.drained {d : Doomed} (move : Move cx (.drain d) cx') (h : cx.Sound) :
    d.record.header.refcount = 0 ∧ cx.current = d.record.header.creationScope ∧
      cx'.table.find? d.ref = none := by
  cases move with
  | @drain r rest gone table queue removed =>
    have spec := (Table.remove_spec h.vacant removed).1
    rcases h.filed _ List.mem_cons_self r (by rw [queue]; simp) with ⟨shown, hshown, _, home, zero⟩
    rw [Table.bare_of_find? spec.found] at hshown
    obtain rfl := Option.some.inj hshown
    exact ⟨zero, home.symm, (spec.find? r).trans (if_pos rfl)⟩

end Context

def Act.doomed? {α : Type} (x : Act α) (f : α → Option Doomed) (w : Workspace) : Option Doomed :=
  match x w with
  | .ok a _ => f a
  | .error _ _ => none

def Task.doomed? (cx : Context) (grants : Grants) (b : Bindings) : Task → Option Doomed
  | .perform _ (.update u _ _) =>
    match b.update u with
    | .ok c => (Act.change c).doomed? Effect.doomed ⟨cx, [], grants⟩
    | .error _ => none
  | .releaseRefs (r :: _) => (Act.decrement .heap false r).doomed? id ⟨cx, [], grants⟩
  | .exitScope _ _ _ | .drain => Act.unearthNext.doomed? id ⟨cx, [], grants⟩
  | _ => none

/-- The record that the next step takes out of the table to destroy it. -/
def Machine.doomed? (m : Machine) : Option Doomed :=
  match m.fault, m.agenda with
  | none, t :: _ => t.doomed? m.context (m.memory 0) m.bindings
  | _, _ => none

theorem Act.doomed?_unearthNext {cx : Context} {grants : Grants}
    (empty : cx.scopes.active.queue = []) :
    Act.unearthNext.doomed? id ⟨cx, [], grants⟩ = none := by
  have next : cx.scopes.nextPending = (none, cx.scopes) := by
    unfold ScopeStack.nextPending
    rw [empty]
  unfold Act.doomed? Act.unearthNext
  rw [Act.bind_apply, Act.onScopes]
  simp only [next]
  rfl

/-- Deeds that take no record out of the table and leave the running scope alone. -/
def Deed.Steady (d : Deed) : Prop := d.removed? = none ∧ d ≠ .enter ∧ d ≠ .leave

theorem Dooms.removed?_eq_none {ds : List Deed} {c : Change} (h : Dooms ds none)
    (permitted : ∀ d ∈ ds, d.Permitted c) : ∀ e ∈ ds, e.removed? = none := by
  intro e he
  cases e with
  | raise | lower | keep | defer | allocate | allocateStatic | store | enter | hook | leave
  | bury => rfl
  | destroy d => exact absurd he (dooms_none_iff.mp h d)
  | drain d => exact (permitted _ he).elim
  | sweep d => exact (permitted _ he).elim

theorem Dooms.steady {ds : List Deed} {d : Doomed} {c : Change} (h : Dooms ds (some d))
    (permitted : ∀ d ∈ ds, d.Permitted c) (stays : c ≠ .pushScope) :
    ∃ es, (ds = es ++ [.destroy d] ∨ ds = es ++ [.drain d]) ∧ ∀ e ∈ es, e.Steady := by
  rcases h with ⟨es, rfl, intact⟩
  refine ⟨es, Or.inl rfl, ?_⟩
  intro e he
  have permitted := permitted e (List.mem_append_left _ he)
  cases e with
  | raise | lower | keep | defer | allocate | allocateStatic | store =>
    simp [Deed.Steady, Deed.removed?]
  | destroy d => exact absurd he (intact d)
  | enter => exact absurd permitted stays
  | drain | hook | leave | bury | sweep => exact permitted.elim

/-- A task takes out the record that it dooms, as its last deed, and no other. Only a sweep goes on
without dooming. -/
theorem Turn.takes {cx cx' : Context} {grants : Grants} {b : Bindings} {t : Task} {ds : List Deed}
    {new : List Task} {fault : Option Fault} (turn : Turn cx grants b t ds cx' new fault)
    (keeps : t ≠ .sweep) :
    match t.doomed? cx grants b with
    | none => ∀ e ∈ ds, e.removed? = none
    | some d => ∃ es, (ds = es ++ [.destroy d] ∨ ds = es ++ [.drain d]) ∧ ∀ e ∈ es, e.Steady := by
  cases turn with
  | asked | outermost | popping | unhooked | scripted | released | finished | closing | mismatched
  | unwound | unwinding => simp [Task.doomed?]
  | hooked | opened | buried => simp [Task.doomed?, Deed.removed?]
  | unbound read => simp [Task.doomed?, read]
  | @changed _ _ _ _ c effect w ds read ran path completed =>
    have doomed : (Act.change c).doomed? Effect.doomed ⟨cx, [], grants⟩ = effect.doomed := by
      simp [Act.doomed?, ran]
    simp only [Task.doomed?, read, doomed]
    cases hd : effect.doomed with
    | none =>
      have dooms := completed.dooms
      rw [hd] at dooms
      exact dooms.removed?_eq_none completed.permitted
    | some d =>
      have dooms := completed.dooms
      rw [hd] at dooms
      refine dooms.steady completed.permitted ?_
      rintro rfl
      cases ran
      cases hd
  | @refused _ _ _ _ c e w ds _ read ran path failed =>
    have doomed : (Act.change c).doomed? Effect.doomed ⟨cx, [], grants⟩ = none := by
      simp [Act.doomed?, ran]
    simp only [Task.doomed?, read, doomed]
    exact failed.dooms.removed?_eq_none failed.permitted
  | @releasing r rest doomed w d ran move lowers conduct =>
    -- any change but the entry of a scope permits what a release does
    have permitted := conduct.permitted (.increment .heap none)
    have dooms := conduct.dooms
    simp only [Task.doomed?, Act.doomed?, ran, id]
    cases doomed with
    | none => exact dooms.removed?_eq_none permitted
    | some d => exact dooms.steady permitted (by simp)
  | stuck ran unheld => simp [Task.doomed?, Act.doomed?, ran]
  | @exiting _ _ _ d w ran move =>
    simp only [Task.doomed?, Act.doomed?, ran, id]
    exact ⟨[], Or.inr rfl, by simp⟩
  | left move =>
    cases move with
    | leave empty popped => simp [Task.doomed?, Act.doomed?_unearthNext empty, Deed.removed?]
  | bottom empty root => simp [Task.doomed?, Act.doomed?_unearthNext empty]
  | draining ran move =>
    simp only [Task.doomed?, Act.doomed?, ran, id]
    exact ⟨[], Or.inr rfl, by simp⟩
  | drained empty => simp [Task.doomed?, Act.doomed?_unearthNext empty]
  | swept => exact absurd rfl keeps

theorem Turn.doomed?_of_removed {cx cx' : Context} {grants : Grants} {b : Bindings} {t : Task}
    {ds : List Deed} {new : List Task} {fault : Option Fault}
    (turn : Turn cx grants b t ds cx' new fault) (keeps : t ≠ .sweep) {e : Deed} {d : Doomed}
    (he : e ∈ ds) (removed : e.removed? = some d) :
    t.doomed? cx grants b = some d := by
  have takes := turn.takes keeps
  split at takes
  · rw [takes e he] at removed
    cases removed
  · rename_i other hother
    rcases takes with ⟨es, hds, steady⟩
    have kept : e ∉ es := by
      intro he
      rw [(steady e he).1] at removed
      cases removed
    rw [hother, ← removed]
    rcases hds with rfl | rfl
    · rw [List.mem_singleton.mp ((List.mem_append.mp he).resolve_left kept)]
      rfl
    · rw [List.mem_singleton.mp ((List.mem_append.mp he).resolve_left kept)]
      rfl

/-- The circumstances in which a record is taken out. -/
theorem Turn.doomed {cx cx' : Context} {grants : Grants} {b : Bindings} {t : Task} {ds : List Deed}
    {new : List Task} {fault : Option Fault} {d : Doomed}
    (turn : Turn cx grants b t ds cx' new fault) (sound : cx.Sound)
    (hd : t.doomed? cx grants b = some d) :
    d.record.header.refcount = 0 ∧ cx.current ≤ d.record.header.creationScope ∧
      (cx.isPending d.ref = true → cx.current = d.record.header.creationScope) ∧
      cx'.current = cx.current ∧ cx'.table.find? d.ref = none := by
  have takes := turn.takes (by rintro rfl; cases hd)
  rw [hd] at takes
  rcases takes with ⟨es, hds, steady⟩
  obtain ⟨last, hlast, hds⟩ : ∃ last, (last = .destroy d ∨ last = .drain d) ∧
      ds = es ++ [last] := by
    rcases hds with hds | hds
    · exact ⟨_, Or.inl rfl, hds⟩
    · exact ⟨_, Or.inr rfl, hds⟩
  have whole := turn.path
  rw [hds] at whole
  rcases whole.split with ⟨mid, path, rest⟩
  have before : mid.current = cx.current := path.current_eq fun e he => (steady e he).2
  cases rest with
  | move move rest =>
    cases rest
    rcases hlast with rfl | rfl
    · rcases move.destroyed (path.sound sound) with ⟨zero, inner, absent, awake⟩
      rw [before] at inner
      refine ⟨zero, inner, ?_, (move.current_eq (by simp) (by simp)).trans before, absent⟩
      intro waiting
      rcases Context.isPending_iff.mp waiting with ⟨old, hold, pending⟩
      have still := path.pending sound hold pending fun e he => (steady e he).1
      rw [← Context.isPending_iff, awake] at still
      cases still
    · rcases move.drained (path.sound sound) with ⟨zero, home, absent⟩
      rw [before] at home
      exact ⟨zero, Nat.le_of_eq home, fun _ => home,
        (move.current_eq (by simp) (by simp)).trans before, absent⟩

theorem Machine.doomed?_eq_some {m : Machine} {d : Doomed} (h : m.doomed? = some d) :
    m.fault = none ∧ ∃ t rest, m.agenda = t :: rest ∧
      t.doomed? m.context (m.memory 0) m.bindings = some d := by
  unfold Machine.doomed? at h
  split at h
  · rename_i t rest running next
    exact ⟨running, t, rest, next, h⟩
  · cases h

/-- A stack decrement destroys its record at once or not at all. -/
theorem Act.ends_decrement_stack (keep : Bool) (r : Ref) (w : Workspace) (sound : w.context.Sound) :
    (Act.decrement .stack keep r).Ends w fun a cx =>
      cx.isPending r = w.context.isPending r ∧ (keep = false → ∀ record,
        w.context.table.find? r = some record →
        Family.stack.tracks record.header w.context.current = true → record.header.refcount = 1 →
        (∃ gone, a = .ok (some ⟨r, gone⟩)) ∧ cx.table.find? r = none) := by
  apply (Act.ends_decrement .stack keep r w).mono
  intro a cx h
  cases h with
  | dangling absent =>
    refine ⟨rfl, ?_⟩
    intro _ record found
    rw [absent] at found
    cases found
  | ignored found untracked =>
    refine ⟨rfl, ?_⟩
    intro _ record found' tracked
    obtain rfl := Option.some.inj (found.symm.trans found')
    rw [untracked] at tracked
    cases tracked
  | underflow found _ zero =>
    refine ⟨rfl, ?_⟩
    intro _ record found' _ last
    obtain rfl := Option.some.inj (found.symm.trans found')
    rw [zero] at last
    cases last
  | lowered found _ count stays =>
    constructor
    · simp [Context.isPending, Table.find?_modifyAt_of_find? found, found, Record.setRefcount]
    · intro gives record found' _ last
      obtain rfl := Option.some.inj (found.symm.trans found')
      rw [last] at count
      rcases stays with keeps | more
      · rw [keeps] at gives
        cases gives
      · exact absurd (Nat.succ.inj count).symm more
  | @destroyed record gone table found tracked last gives inner removed =>
    obtain ⟨_, _, absent, awake⟩ := Context.Move.destroyed
      (.destroy found (Family.creationScope_ne_of_tracks tracked) last inner removed) sound
    constructor
    · rw [awake, Context.isPending, absent]
      rfl
    · intro _ _ _ _ _
      exact ⟨⟨gone, rfl⟩, absent⟩
  | @deferred record found tracked last gives outer =>
    -- a stack reference is counted only while the home scope or an enclosing one runs
    have inner : w.context.current ≤ record.header.creationScope := by
      simp only [Family.tracks, Bool.and_eq_true, decide_eq_true_eq] at tracked
      exact tracked.2
    exact absurd inner (Nat.not_le_of_lt outer)

namespace Machine

/-- Records are destroyed in step with scopes. -/
theorem Reachable.destruction {m : Machine} (h : m.Reachable) :
    (∀ d, m.doomed? = some d →
      d.record.header.refcount = 0 ∧ m.context.current ≤ d.record.header.creationScope ∧
      ((∃ level ∈ m.context.scopes.levels, d.ref ∈ level.queue) →
        m.context.current = d.record.header.creationScope) ∧
      m.step.context.current = m.context.current ∧ m.step.context.table.find? d.ref = none) ∧
    (∀ x, (m.context.table.find? x).isSome = true → m.step.context.table.find? x = none →
      (∃ record, m.doomed? = some ⟨x, record⟩) ∨ ∃ rest, m.agenda = .sweep :: rest) ∧
    ∀ keep r journal grants, (Act.decrement .stack keep r).Ends ⟨m.context, journal, grants⟩
      fun a cx => cx.isPending r = m.context.isPending r ∧ (keep = false → ∀ record,
        m.context.table.find? r = some record →
        Family.stack.tracks record.header m.context.current = true → record.header.refcount = 1 →
        (∃ gone, a = .ok (some ⟨r, gone⟩)) ∧ cx.table.find? r = none) := by
  have sound := h.sound
  refine ⟨?_, ?_, fun keep r journal grants =>
    Act.ends_decrement_stack keep r ⟨m.context, journal, grants⟩ sound⟩
  · intro d hd
    rcases doomed?_eq_some hd with ⟨running, t, rest, next, hd⟩
    rcases turn_step sound running next with ⟨ds, new, turn, _⟩
    rcases turn.doomed sound hd with ⟨zero, inner, home, still, absent⟩
    refine ⟨zero, inner, ?_, still, absent⟩
    rintro ⟨level, hlevel, queued⟩
    exact home (sound.mem_waiting_iff.mp
      (List.mem_flatMap.mpr ⟨level, List.mem_reverse.mp hlevel, queued⟩))
  · intro x present absent
    rcases m.step_cases with same | ⟨running, t, rest, next⟩
    · rw [same] at absent
      rw [absent] at present
      cases present
    · by_cases sweeps : t = .sweep
      · exact Or.inr ⟨rest, by rw [next, sweeps]⟩
      · rcases turn_step sound running next with ⟨ds, new, turn, _⟩
        obtain ⟨e, he, record, removed⟩ := turn.path.removed (x := x) sound
          (by rw [Table.bare, Option.isSome_map, present]) (by rw [Table.bare, absent]; rfl)
        have doomed : m.doomed? = t.doomed? m.context (m.memory 0) m.bindings := by
          unfold doomed?
          rw [running, next]
        rw [doomed]
        exact Or.inl ⟨record, turn.doomed?_of_removed sweeps he removed⟩

theorem destruction_deferral : ∃ d, deferral.doomed? = some d ∧ d.ref = ⟨2, 0⟩ ∧
    deferral.context.current = d.record.header.creationScope ∧
      deferral.step.context.table.find? d.ref = none := by
  have destruction := ((Reachable.start _ _ _).steps 11 : deferral.Reachable).destruction
  rcases destruction.1 _ rfl with ⟨zero, inner, home, still, absent⟩
  exact ⟨_, rfl, rfl, home ⟨_, List.mem_cons_of_mem _ List.mem_cons_self, by decide⟩, absent⟩

end Machine

end ScopedHeap
