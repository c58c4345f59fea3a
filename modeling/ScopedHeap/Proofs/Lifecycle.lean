import ScopedHeap.Proofs.Agenda
import ScopedHeap.Proofs.Parting

/-!
# The life of a record

A record is live first, then it may wait, and then it is gone for good. While it exists its home
stays the same (`Record.Ages`). It goes once: either it is given up by a teardown, and its hook
never runs, or it is taken out to be destroyed, and its hook starts with the next step
(`History.Unrepeated.lifecycle`). -/
namespace ScopedHeap

/-- How a record may change while it exists. -/
structure Record.Ages (old new : Record) : Prop where
  scope : new.header.creationScope = old.header.creationScope
  home : new.header.home = old.header.home
  /-- A hook stays once it is installed. -/
  hook : ∀ hook, old.header.hook = some hook → new.header.hook = some hook
  /-- A record that waits never comes back. -/
  pending : old.header.state = .pending → new.header.state = .pending

namespace Record.Ages

theorem refl (r : Record) : r.Ages r := ⟨rfl, rfl, fun _ h => h, id⟩

theorem trans {a b c : Record} (h : a.Ages b) (k : b.Ages c) : a.Ages c where
  scope := k.scope.trans h.scope
  home := k.home.trans h.home
  hook := fun hook installed => k.hook hook (h.hook hook installed)
  pending := k.pending ∘ h.pending

end Record.Ages

namespace Context

variable {cx cx' : Context} {d : Deed} {ds : List Deed} {x : Ref} {old : Record}

theorem Move.ages (move : Move cx d cx') (h : cx.Sound) (hold : cx.table.bare x = some old) :
    (∃ new, cx'.table.bare x = some new ∧ old.Ages new) ∨
      ∃ record, d.removed? = some ⟨x, record⟩ := by
  have fate := move.fate h x
  rw [hold] at fate
  generalize cx'.table.bare x = after at fate
  cases fate with
  | same => exact Or.inl ⟨old, rfl, .refl old⟩
  | raised | lowered | kept => exact Or.inl ⟨_, rfl, rfl, rfl, fun _ h => h, id⟩
  | deferred => exact Or.inl ⟨_, rfl, rfl, rfl, fun _ h => h, fun _ => rfl⟩
  | hooked free =>
    refine Or.inl ⟨_, rfl, rfl, rfl, ?_, id⟩
    intro hook installed
    rw [free] at installed
    cases installed
  | stored => exact Or.inl ⟨_, rfl, rfl, rfl, fun _ h => h, id⟩
  | destroyed | drained | swept => exact Or.inr ⟨_, rfl⟩

theorem Path.ages (path : Path cx ds cx') (h : cx.Sound) (hold : cx.table.bare x = some old)
    (stays : ∀ d ∈ ds, ∀ record, d.removed? ≠ some ⟨x, record⟩) :
    ∃ new, cx'.table.bare x = some new ∧ old.Ages new := by
  induction path generalizing old with
  | refl => exact ⟨old, hold, .refl old⟩
  | @move a b c d ds first rest ih =>
    rcases first.ages h hold with ⟨mid, hmid, aged⟩ | ⟨record, removed⟩
    · obtain ⟨new, hnew, later⟩ := ih (first.sound h) hmid
        fun d hd => stays d (List.mem_cons_of_mem _ hd)
      exact ⟨new, hnew, aged.trans later⟩
    · exact absurd removed (stays d List.mem_cons_self record)

/-- The record does not wait, and could not be put off while this scope runs. -/
def Settling (cx : Context) (x : Ref) : Prop :=
  ∀ record, cx.table.bare x = some record → record.header.state ≠ .pending ∧
    (record.header.creationScope = cx.current ∨ record.header.creationScope = staticScope)

theorem Move.settling (move : Move cx d cx') (h : cx.Sound) (enter : d ≠ .enter)
    (leave : d ≠ .leave) (settling : cx.Settling x) : cx'.Settling x := by
  intro record hrecord
  have fate := move.fate h x
  rw [hrecord] at fate
  rw [move.current_eq enter leave]
  unfold Settling at settling
  generalize cx.table.bare x = before at fate settling
  cases fate with
  | same => exact settling record rfl
  | raised | lowered | kept | hooked | stored =>
    have before := settling _ rfl
    exact before
  | deferred tracked _ outer =>
    rcases (settling _ rfl).2 with here | static
    · exact absurd here (Nat.ne_of_lt outer)
    · exact absurd static tracked
  | allocated | furnished => exact ⟨by simp [Header.fresh, Record.setHook], Or.inl rfl⟩
  | settled => exact ⟨by simp [Header.forever], Or.inr rfl⟩

theorem Path.settling (path : Path cx ds cx') (h : cx.Sound)
    (stays : ∀ d ∈ ds, d ≠ .enter ∧ d ≠ .leave) (settling : cx.Settling x) : cx'.Settling x := by
  induction path with
  | refl => exact settling
  | @move a b c d ds first _ ih =>
    obtain ⟨enter, leave⟩ := stays d List.mem_cons_self
    exact ih (first.sound h) (fun d hd => stays d (List.mem_cons_of_mem _ hd))
      (first.settling h enter leave settling)

end Context

open Context

/-- No turn both changes records and moves between scopes. -/
theorem Turn.stays_or_table_eq {cx cx' : Context} {grants : Grants} {b : Bindings} {t : Task}
    {ds : List Deed} {new : List Task} {fault : Option Fault}
    (turn : Turn cx grants b t ds cx' new fault) :
    (∀ d ∈ ds, d ≠ .enter ∧ d ≠ .leave) ∨ cx'.table = cx.table := by
  have permitted : ∀ {c : Change}, c ≠ .pushScope → (∀ d ∈ ds, d.Permitted c) →
      ∀ d ∈ ds, d ≠ .enter ∧ d ≠ .leave := by
    intro c stays permitted d hd
    have allowed := permitted d hd
    constructor
    · rintro rfl
      exact stays allowed
    · rintro rfl
      exact allowed
  cases turn with
  | asked | unbound | outermost | popping | unhooked | scripted | released | stuck | finished
  | bottom | closing | mismatched | unwound | unwinding | drained => exact Or.inr rfl
  | hooked | buried | exiting | draining => exact Or.inl (by simp)
  | opened => exact Or.inr rfl
  | @changed _ _ _ _ c effect w ds read ran path completed =>
    by_cases entering : c = .pushScope
    · subst entering
      cases ran
      exact Or.inr rfl
    · exact Or.inl (permitted entering completed.permitted)
  | @refused _ _ _ _ c e w ds _ read ran path failed =>
    by_cases entering : c = .pushScope
    · subst entering
      cases ran
    · exact Or.inl (permitted entering failed.permitted)
  | @releasing r rest doomed w d ran move lowers conduct =>
    exact Or.inl (permitted (c := .increment .heap none) (by simp) (conduct.permitted _))
  | left move =>
    cases move with
    | leave => exact Or.inr rfl
  | swept path sweeps all =>
    refine Or.inl ?_
    intro d hd
    obtain ⟨y, rfl⟩ := sweeps d hd
    simp

/-- A step that sets a hook and does not stop the program has installed it. -/
theorem Machine.hook_of_setHook {m : Machine} {site : Site} {target : Operand} {name : String}
    {script : List Command} {rest : List Task} {x : Ref}
    (front : m.agenda = .perform site (.setHook target name script) :: rest)
    (read : m.bindings.record target = .ok x) (passed : m.step.fault = none) :
    ∃ record, m.step.context.table.find? x = some record ∧
      record.header.hook = some (.script name script) := by
  have running : m.fault = none := by
    by_contra stopped
    rw [(step_of_stopped (Or.inl stopped)).1] at passed
    exact stopped passed
  have next : m.step = { m with agenda := rest }.act (Act.installHook x (.script name script)) abort
      fun m _ => m.deliver ⟨site, .strict, none⟩ (.ok .done) := by
    rw [step, running, front]
    simp only [execute, perform, read]
  have installs : (Act.installHook x (.script name script)).Ends m.workspace (Act.Either
      (fun _ cx => ∃ record, m.context.table.find? x = some record ∧ cx = { m.context with
        table := m.context.table.modifyAt x.index (Record.setHook (.script name script)) })
      fun _ => True) :=
    Act.ends_installHook (fun _ _ => trivial) fun record found free => ⟨record, found, rfl⟩
  rw [next] at passed ⊢
  revert passed
  refine act_cases (m := { m with agenda := rest }) (Q := fun m' => m'.fault = none →
    ∃ record, m'.context.table.find? x = some record ∧
      record.header.hook = some (.script name script)) installs ?_ ?_
  · intro e w _ _ passed
    cases passed
  · rintro _ w _ ⟨record, found, hw⟩ _
    refine ⟨record.setHook (.script name script), ?_, rfl⟩
    show w.context.table.find? x = _
    rw [hw, Table.find?_modifyAt_self found]

namespace Table

/-- Every way into the table by this reference is refused. -/
def Dangles (t : Table) (x : Ref) : Prop :=
  t.find x = .error (dangling x) ∧ t.remove x = .error (dangling x) ∧
    ∀ (α : Type) (f : Payload → Except Error (α × Payload)),
      t.updatePayload x f = .error (dangling x)

theorem dangles_of_find? {t : Table} {x : Ref} (absent : t.find? x = none) : t.Dangles x := by
  have found : t.find x = .error (dangling x) := by
    rw [find, absent]
  refine ⟨found, ?_, ?_⟩
  · rw [remove, absent]
  · intro α f
    rw [updatePayload, found]
    rfl

end Table

namespace History

variable (h : History)

/-- A record is taken out at a moment to be destroyed. -/
def Destroys (k : Nat) (x : Ref) : Prop := ∃ record, h.destroyed? k = some ⟨x, record⟩

/-- What becomes of a record that is taken out at moment `k` to be destroyed. -/
structure Taken (k : Nat) (x : Ref) (record : Record) : Prop where
  /-- It has been there until then, and it goes with the payload that it had. Only a change that
  rewrites its own payload before it loses the last reference comes in between. -/
  before : ∃ old, h.record? k x = some old ∧
    record.content = (old.setPayload record.payload).content ∧
    (record.payload = old.payload ∨ ∃ site u policy bind c rest,
      (h.state k).agenda = .perform site (.update u policy bind) :: rest ∧
      (h.state k).bindings.update u = .ok c ∧
      Update.Rewrites (h.state k).context x c old.payload record.payload)
  /-- From then on it is not found any more. -/
  dangles : ∀ j, k < j → (h.state j).context.table.Dangles x
  /-- The hook comes next, with that payload, and then the burial. -/
  hook : (h.state (k + 1)).fault = none ∧ ∃ rest, (h.state (k + 1)).agenda =
    record.header.hook.elim [] (Hook.tasks x record.payload) ++
      .bury x record.header.creationScope record.header.hook.isSome :: rest
  /-- A script starts with the next step. -/
  script : ∀ name script, record.header.hook = some (.script name script) →
    (h.state (k + 2)).trace =
      .hookStarted x name record.payload :: (h.state (k + 1)).trace

/-- The life of the record under a reference. -/
structure Life (x : Ref) : Prop where
  /-- A hook that is set without an error is the one that the record has from then on. -/
  installed : ∀ n site target name script rest, h.closing ≠ some n →
    (h.state n).agenda = .perform site (.setHook target name script) :: rest →
    (h.state n).bindings.record target = .ok x → (h.state (n + 1)).fault = none →
    ∃ record, h.record? (n + 1) x = some record ∧
      record.header.hook = some (.script name script)
  /-- It begins as a live record. -/
  born : ∀ n record, (∀ m, m < n → h.record? m x = none) → h.record? n x = some record →
    record.header.creationScope ≠ staticScope → record.header.state = .live
  /-- It is live, or it waits and is referred to no more. -/
  state : ∀ n record, h.record? n x = some record → record.header.creationScope ≠ staticScope →
    record.header.state = .live ∨ record.header.state = .pending ∧ record.header.refcount = 0
  ages : ∀ i j old new, i ≤ j → h.record? i x = some old → h.record? j x = some new → old.Ages new
  /-- When it is gone it stays away. -/
  gone : ∀ i j k, i ≤ j → j ≤ k → (h.record? i x).isSome → h.record? j x = none →
    h.record? k x = none
  /-- It goes by being destroyed or by being given up. -/
  ended : ∀ i j, i ≤ j → (h.record? i x).isSome →
    (h.record? j x = none ↔ ∃ k, k < j ∧ (h.Destroys k x ∨ x ∈ h.leaked k))
  /-- It is destroyed once at most. -/
  once : ∀ k l, h.Destroys k x → h.Destroys l x → k = l
  /-- What is given up is never destroyed. -/
  leak : ∀ k l, x ∈ h.leaked k → ¬ h.Destroys l x
  taken : ∀ k record, h.destroyed? k = some ⟨x, record⟩ → h.Taken k x record
  /-- A script runs for a record that the last step has taken out. -/
  started : ∀ n name payload script rest,
    (h.state n).agenda = .runScript x name payload script :: rest →
    ∃ k record, n = k + 1 ∧ h.destroyed? k = some ⟨x, record⟩ ∧
      record.header.hook = some (.script name script) ∧ record.payload = payload
  /-- Slots are released for a container that has been taken out before. -/
  releasing : ∀ n refs scope hooked rest,
    (h.state n).agenda = .releaseRefs refs :: .bury x scope hooked :: rest →
    ∃ k record, k < n ∧ h.destroyed? k = some ⟨x, record⟩ ∧
      record.header.hook = some (.releaseSlots record.payload.kind) ∧ refs <:+ record.payload.refs

variable {h} {x : Ref}

theorem ages_succ {n : Nat} {old : Record} (hold : h.record? n x = some old)
    (stays : x ∉ h.removed n) : ∃ new, h.record? (n + 1) x = some new ∧ old.Ages new := by
  obtain ⟨ds, path, removed⟩ := h.path n
  rw [h.mem_removed_of_path removed] at stays
  obtain ⟨shown, hshown, aged⟩ := path.ages (h.sound n) (Table.bare_of_find? hold)
    fun d hd record taken => stays ⟨d, hd, record, taken⟩
  obtain ⟨new, hnew, rfl⟩ := Table.bare_eq_some_iff.mp hshown
  exact ⟨new, hnew, aged.scope, aged.home, aged.hook, aged.pending⟩

theorem Unrepeated.ages (fresh : h.Unrepeated) {i j : Nat} {old new : Record} (le : i ≤ j)
    (hold : h.record? i x = some old) (hnew : h.record? j x = some new) : old.Ages new := by
  -- it has not been taken out before `j`, so it ages moment by moment
  have present : (h.record? j x).isSome := by rw [hnew]; rfl
  have aged : ∀ k, i ≤ k → k ≤ j → ∃ mid, h.record? k x = some mid ∧ old.Ages mid := by
    intro k ge
    induction ge with
    | refl => exact fun _ => ⟨old, hold, .refl old⟩
    | @step k ge ih =>
      intro lt
      obtain ⟨mid, hmid, before⟩ := ih (Nat.le_of_succ_le lt)
      obtain ⟨next, hnext, after⟩ := ages_succ hmid (fresh.not_mem_removed present lt)
      exact ⟨next, hnext, before.trans after⟩
  obtain ⟨last, hlast, aged⟩ := aged j le (Nat.le_refl j)
  rw [hnew] at hlast
  rw [Option.some.inj hlast]
  exact aged

theorem state_eq {n : Nat} {record : Record} (found : h.record? n x = some record)
    (counted : record.header.creationScope ≠ staticScope) :
    record.header.state = .live ∨ record.header.state = .pending ∧ record.header.refcount = 0 := by
  have shown := Table.bare_of_find? found
  cases state : record.header.state with
  | live => exact Or.inl rfl
  | pending =>
    have zero := (h.sound n).refcount_of_pending shown state
    exact Or.inr ⟨rfl, zero⟩
  | static => exact absurd (((h.sound n).proper x _ shown).static.mp state) counted

theorem state_ne_pending {n : Nat} {record : Record} (absent : h.record? n x = none)
    (found : h.record? (n + 1) x = some record) : record.header.state ≠ .pending := by
  have missing : (h.state n).context.table.bare x = none := Option.map_eq_none_iff.mpr absent
  cases h.moment n with
  | closing _ next | still _ next =>
    rw [record?, next] at found
    cases absent.symm.trans found
  | turn _ _ _ turn =>
    rcases turn.stays_or_table_eq with stays | same
    · have settling : (h.state n).context.Settling x := by
        intro record hrecord
        rw [missing] at hrecord
        cases hrecord
      exact (turn.path.settling (h.sound n) stays settling _ (Table.bare_of_find? found)).1
    · rw [record?, same] at found
      cases absent.symm.trans found

theorem creationScope_start {record : Record} (found : h.record? 0 x = some record) :
    record.header.creationScope = staticScope := by
  have cells : ∀ i r, (Context.new h.settings).table.recordAt? i = some r →
      r.header.creationScope = staticScope := by
    intro i r hr
    match i with
    | 0 | 1 =>
      cases hr
      rfl
    | i + 2 => cases hr
  exact cells _ _ (Table.recordAt?_of_find? found)

theorem state_of_first {n : Nat} {record : Record} (first : ∀ m, m < n → h.record? m x = none)
    (found : h.record? n x = some record) (counted : record.header.creationScope ≠ staticScope) :
    record.header.state = .live := by
  cases n with
  | zero => exact absurd (creationScope_start found) counted
  | succ n =>
    have awake := state_ne_pending (first n n.lt_succ_self) found
    exact (state_eq found counted).resolve_right fun pending => awake pending.1

theorem destroyed?_of_leaked {n : Nat} (leaks : x ∈ h.leaked n) : h.destroyed? n = none := by
  cases h.moment n with
  | closing _ _ destroyed _ | still _ _ destroyed _ => exact destroyed
  | @turn t _ _ _ _ _ _ _ _ destroyed leaked =>
    rw [destroyed]
    by_cases sweeps : t = .sweep
    · rw [sweeps]
      rfl
    · rw [leaked, Task.leaks_of_ne sweeps] at leaks
      cases leaks

theorem turn_of_destroyed {k : Nat} {d : Doomed} (destroyed : h.destroyed? k = some d) :
    ∃ t rest, (h.state k).agenda = t :: rest ∧
      t.doomed? (h.state k).context ((h.state k).memory 0) (h.state k).bindings = some d ∧
      (h.state (k + 1)).fault = none ∧ ∃ more, (h.state (k + 1)).agenda = d.tasks ++ more := by
  cases h.moment k with
  | closing _ _ none | still _ _ none =>
    rw [destroyed] at none
    cases none
  | @turn t rest new ds _ front _ turn agenda doomed _ =>
    obtain ⟨more, rfl, runs, _⟩ := turn.front
    rw [destroyed] at doomed
    rw [← doomed] at agenda runs
    rw [List.append_assoc] at agenda
    exact ⟨t, rest, front, doomed.symm, runs (by simp), _, agenda⟩

/-- A script in front is run, since there is something to do and no program is idle. -/
theorem trace_of_script {n : Nat} {name : String} {payload : Payload} {script : List Command}
    {rest : List Task} (running : (h.state n).fault = none)
    (front : (h.state n).agenda = .runScript x name payload script :: rest) :
    (h.state (n + 1)).trace = .hookStarted x name payload :: (h.state n).trace := by
  cases h.moment n with
  | closing idle =>
    rcases idle.agenda _ (front ▸ List.mem_cons_self) with ⟨c, hc⟩ | ⟨id, hid⟩
    · cases hc
    · cases hid
  | still stopped =>
    rw [running, front] at stopped
    rcases stopped with stopped | idle
    · exact absurd rfl stopped
    · cases idle
  | turn _ _ next =>
    rw [next, Machine.step, running, front]
    rfl

theorem Unrepeated.taken (fresh : h.Unrepeated) {k : Nat} {record : Record}
    (destroyed : h.destroyed? k = some ⟨x, record⟩) : h.Taken k x record := by
  obtain ⟨t, rest, front, doomed, running, more, agenda⟩ := turn_of_destroyed destroyed
  rw [Doomed.tasks_eq, List.append_assoc] at agenda
  refine ⟨?_, ?_, ⟨running, more, agenda⟩, ?_⟩
  · rcases Task.doomed?_parted doomed with spared | ⟨site, u, policy, bind, c, rfl, read, parted⟩
    · obtain ⟨old, found, same⟩ := spared
      have payload := Record.payload_eq same
      refine ⟨old, found, ?_, Or.inl payload⟩
      rw [payload]
      exact same
    · obtain ⟨old, found, same, rewrites⟩ := parted
      exact ⟨old, found, same, rewrites.imp_right fun rewrites =>
        ⟨site, u, policy, bind, c, rest, front, read, rewrites⟩⟩
  · intro j lt
    exact Table.dangles_of_find? (fresh.absent (h.mem_removed.mpr (Or.inr ⟨record, destroyed⟩)) lt)
  · intro name script hook
    rw [hook] at agenda
    exact trace_of_script running agenda

/-- Over every history whose cells keep their generations apart, records live one life. -/
theorem Unrepeated.lifecycle (fresh : h.Unrepeated) (x : Ref) : h.Life x where
  installed := by
    intro n site target name script rest goes front read passed
    have next : h.state (n + 1) = (h.state n).step := if_neg goes
    rw [next] at passed
    rw [record?, next]
    exact Machine.hook_of_setHook front read passed
  born := fun _ _ first found counted => state_of_first first found counted
  state := fun _ _ found counted => state_eq found counted
  ages := fun _ _ _ _ le hold hnew => fresh.ages le hold hnew
  gone := by
    intro i j k le le' present absent
    obtain ⟨l, _, lt, removed⟩ := h.exists_removed le present absent
    exact fresh.absent removed (Nat.lt_of_lt_of_le lt le')
  ended := by
    intro i j le present
    constructor
    · intro absent
      obtain ⟨k, _, lt, removed⟩ := h.exists_removed le present absent
      exact ⟨k, lt, (h.mem_removed.mp removed).symm⟩
    · rintro ⟨k, lt, removed⟩
      exact fresh.absent (h.mem_removed.mpr removed.symm) lt
  once := fun k l first second =>
    fresh.removed_once (h.mem_removed.mpr (Or.inr first)) (h.mem_removed.mpr (Or.inr second))
  leak := by
    rintro k l leaks ⟨record, destroyed⟩
    obtain rfl := fresh.removed_once (h.mem_removed.mpr (Or.inl leaks))
      (h.mem_removed.mpr (Or.inr ⟨record, destroyed⟩))
    rw [destroyed?_of_leaked leaks] at destroyed
    cases destroyed
  taken := fun k record destroyed => fresh.taken destroyed
  started := fun n name payload script rest front => (h.composed n).owner front
  releasing := by
    intro n refs scope hooked rest front
    obtain ⟨y, scope', others, same, owned, _⟩ := (h.composed n).release front
    cases same
    exact owned

/-- The first of two records is given up, and its script asks for the record itself. The other one
is left to the teardown. -/
def farewell : History where
  settings := {}
  memory := .ample
  program := [.update (.newStr []) .strict none, .update (.newStr []) .strict none,
    .setHook (.ref ⟨2, 0⟩) "last" [.ask (.header (.ref ⟨2, 0⟩)) .checked none],
    .update (.decrement .heap false (.ref ⟨2, 0⟩)) .strict none]
  closing := some 10
  idle := by
    intro n hn
    cases hn
    refine ⟨rfl, ?_⟩
    intro t ht
    exact absurd ht List.not_mem_nil

theorem lifecycle_farewell : farewell.Unrepeated ∧ farewell.Life ⟨2, 0⟩ ∧ farewell.Life ⟨3, 0⟩ ∧
    farewell.Destroys 5 ⟨2, 0⟩ ∧ farewell.leaked 12 = [⟨3, 0⟩] := by
  have fresh : farewell.Unrepeated := by
    refine farewell.unrepeated_of_stopped (n := 13) ?_ (Or.inr rfl) (by decide)
    intro m le h
    cases h
    exact absurd le (by decide)
  exact ⟨fresh, fresh.lifecycle ⟨2, 0⟩, fresh.lifecycle ⟨3, 0⟩, ⟨_, rfl⟩, rfl⟩

end History

end ScopedHeap
