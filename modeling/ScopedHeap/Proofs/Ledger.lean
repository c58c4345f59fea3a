import ScopedHeap.Proofs.Furnished

/-!
# Who holds the counts

A ledger says how many counts of each record the client holds. A client that never gives up a count
it does not hold, and exchanges no payloads by hand, has lawful books. Then the count of every
record that is not static is made up of the client's counts, the slots that refer to the record,
and, while a container is on its way out, the references that it has yet to give up (`Books.Kept`).
-/
namespace ScopedHeap

open Context

/-- How many counts the client holds. -/
abbrev Ledger := Ref → Nat

/-- The ledger after a change: counted increments and decrements are entered, and so is the count
that a new record is born with. -/
def Update.settle (c : Change) (w : Workspace) (owned : Ledger) : Ledger :=
  match Act.change c w with
  | .error _ _ => owned
  | .ok effect _ =>
    match c with
    | .increment family (some r) =>
      if w.context.countsUp family r then Function.update owned r (owned r + 1) else owned
    | .decrement family _ (some r) =>
      if w.context.countsDown family r then Function.update owned r (owned r - 1) else owned
    | _ =>
      match effect.answer with
      | .ref r => Function.update owned r 1
      | _ => owned

def Task.change? (b : Bindings) : Task → Option Change
  | .perform _ (.update u _ _) => (b.update u).toOption
  | _ => none

def Task.isSweep : Task → Bool
  | .sweep => true
  | _ => false

def Machine.change? (m : Machine) : Option Change :=
  match m.fault, m.agenda with
  | none, t :: _ => t.change? m.bindings
  | _, _ => none

theorem Machine.change?_eq {m : Machine} {t : Task} {rest : List Task} (running : m.fault = none)
    (next : m.agenda = t :: rest) : m.change? = t.change? m.bindings := by
  rw [Machine.change?, running, next]

/-- A machine together with the counts that its client holds. -/
structure Books where
  machine : Machine
  owned : Ledger

namespace Books

def step (b : Books) : Books where
  machine := b.machine.step
  owned := b.machine.change?.elim b.owned fun c => c.settle b.machine.workspace b.owned

def steps (b : Books) : Nat → Books
  | 0 => b
  | n + 1 => b.step.steps n

/-- The next step gives up no count that the client does not hold, puts no payload into a record by
hand and sweeps nothing away. -/
structure Lawful (b : Books) : Prop where
  plain : ∀ c ∈ b.machine.change?, c.exchangesPayload = false
  covered : ∀ c ∈ b.machine.change?, ∀ r ∈ c.spent b.machine.context, 1 ≤ b.owned r
  keeps : ∀ t ∈ b.machine.agenda.head?, t.isSweep = false

instance (b : Books) : Decidable b.Lawful :=
  decidable_of_iff ((∀ c ∈ b.machine.change?, c.exchangesPayload = false) ∧
      (∀ c ∈ b.machine.change?, ∀ r ∈ c.spent b.machine.context, 1 ≤ b.owned r) ∧
      ∀ t ∈ b.machine.agenda.head?, t.isSweep = false)
    ⟨fun ⟨plain, covered, keeps⟩ => ⟨plain, covered, keeps⟩,
      fun h => ⟨h.plain, h.covered, h.keeps⟩⟩

/-- The books of a client that keeps to a rule at every step, in the states of its program and of
the teardown after it. -/
inductive Run (rule : Books → Prop) : Books → Prop
  | start (settings : Settings) (memory : Memory) (program : List Command) :
      Run rule ⟨.start settings memory program, fun _ => 0⟩
  | step {b : Books} : Run rule b → rule b → Run rule b.step
  | closing {b : Books} : Run rule b → b.machine.Idle → Run rule ⟨b.machine.closing, b.owned⟩

end Books

section Settling

variable {cx cx' : Context} {c : Change} {effect : Effect} {ds : List Deed} {r : Ref}
  {owned : Ledger}

theorem Context.Move.absent_of_allocate {d : Deed} {p : Payload} (move : Move cx d cx')
    (sound : cx.Sound) (born : d = .allocate r p ∨ d = .allocateStatic r p) :
    cx.table.bare r = none := by
  rcases born with rfl | rfl
  · cases move with
    | allocate inserted => exact (Table.insert_spec sound.vacant inserted).1.bare_eq_none
    | allocateContainer inserted => exact (Table.insert_spec sound.vacant inserted).1.bare_eq_none
  · cases move with
    | allocateStatic inserted => exact (Table.insert_spec sound.vacant inserted).1.bare_eq_none

theorem Update.Completed.absent (completed : c.Completed cx effect ds cx') (path : Path cx ds cx')
    (sound : cx.Sound) (plain : c.exchangesPayload = false) (answer : effect.answer = .ref r) :
    cx.table.bare r = none := by
  obtain ⟨d, hd, p, born⟩ : ∃ d ∈ ds, ∃ p, d = .allocate r p ∨ d = .allocateStatic r p := by
    rcases completed.born plain r answer with ⟨p, hp⟩ | ⟨p, hp⟩
    · exact ⟨_, hp, p, Or.inl rfl⟩
    · exact ⟨_, hp, p, Or.inr rfl⟩
  rcases completed.dooms with ⟨es, hds, intact⟩
  have hes : d ∈ es := by
    rw [hds] at hd
    refine (List.mem_append.mp hd).resolve_right ?_
    intro doomed
    rcases List.mem_map.mp doomed with ⟨e, _, rfl⟩
    rcases born with h | h <;> cases h
  rcases List.append_of_mem hes with ⟨before, after, rfl⟩
  -- nothing is taken out before the new record is let in
  have stays : ∀ e ∈ before, e.removed? = none := by
    apply Dooms.removed?_eq_none (c := c)
    · exact dooms_none_iff.mpr fun e he => intact e (List.mem_append_left _ he)
    · intro e he
      apply completed.permitted
      rw [hds]
      exact List.mem_append_left _ (List.mem_append_left _ he)
  rw [hds, List.append_assoc] at path
  rcases path.split with ⟨mid, first, rest⟩
  cases rest with
  | move move rest =>
    have absent := move.absent_of_allocate (first.sound sound) born
    cases present : cx.table.bare r with
    | none => rfl
    | some record =>
      rcases first.removed sound (by rw [present]; rfl) absent with ⟨e, he, _, removed⟩
      rw [stays e he] at removed
      cases removed

theorem Update.Completed.settle_add_spent {w : Workspace}
    (completed : c.Completed cx effect ds w.context)
    (ran : Act.change c ⟨cx, [], grants⟩ = .ok effect w)
    (path : Path cx ds w.context) (sound : cx.Sound) (plain : c.exchangesPayload = false)
    (covered : ∀ r ∈ c.spent cx, 1 ≤ owned r)
    (fresh : ∀ r, cx.table.bare r = none → owned r = 0) (x : Ref) :
    c.settle ⟨cx, [], grants⟩ owned x + (c.spent cx).count x =
      owned x + (c.earned cx effect).count x := by
  have answered : ∀ r, effect.answer = .ref r →
      Function.update owned r 1 x = owned x + [r].count x := by
    intro r answer
    have zero := fresh r (completed.absent path sound plain answer)
    by_cases e : x = r
    · rw [e, Function.update_self, zero, List.count_singleton_self]
    · rw [Function.update_of_ne e, List.count_singleton, if_neg (by simpa using Ne.symm e)]
      rfl
  have unaddressed : (match effect.answer with
      | .ref r => Function.update owned r 1
      | _ => owned) x + [].count x = owned x + (match effect.answer with
      | .ref r => [r]
      | _ => []).count x := by
    generalize effect.answer = answer at answered
    cases answer with
    | ref r => exact answered r rfl
    | _ => rfl
  unfold Update.settle
  rw [ran]
  cases c with
  | allocate | allocateStatic | staticFrom | setPayload | swapPayloads | writeRaw | pushScope
  | newStr | newText | newList | listPush | listPop | listSet | newDict | dictInsert | newSet =>
    exact unaddressed
  | increment family target =>
    cases target with
    | none => exact unaddressed
    | some r =>
      dsimp only [Update.spent, Update.earned]
      by_cases counts : cx.countsUp family r = true
      · rw [if_pos counts, if_pos counts]
        by_cases e : x = r
        · simp [e]
        · simp [e, Ne.symm e]
      · rw [if_neg counts, if_neg counts]
  | decrement family keep target =>
    cases target with
    | none => exact unaddressed
    | some r =>
      -- a decrement answers with no record
      have silent : Update.earned (.decrement family keep (some r)) cx effect = [] := by
        rw [Act.change, Act.bind_apply] at ran
        split at ran
        · cases ran
          rfl
        · cases ran
      rw [silent]
      dsimp only [Update.spent] at covered ⊢
      by_cases counts : cx.countsDown family r = true
      · rw [if_pos counts] at covered
        have held := covered r List.mem_cons_self
        rw [if_pos counts, if_pos counts]
        by_cases e : x = r
        · rw [e, Function.update_self, List.count_singleton_self, List.count_nil]
          omega
        · simp [e, Ne.symm e]
      · rw [if_neg counts, if_neg counts]

end Settling

theorem Deed.Permitted.faithful {c : Change} {d : Deed} (h : d.Permitted c)
    (plain : c.exchangesPayload = false) : d.Faithful := by
  have settled {P : Prop} (h : P ∨ c.exchangesPayload = true) : P := by
    rcases h with h | exchanges
    · exact h
    · rw [plain] at exchanges
      cases exchanges
  cases d with
  | allocateStatic | store => exact settled h
  | raise | lower | keep | defer | destroy | drain | allocate | hook | enter | leave | bury
  | sweep => trivial

section Turning

variable {cx cx' : Context} {grants : Grants} {b : Bindings} {t : Task} {ds : List Deed}
  {new : List Task} {fault : Option Fault} {owned : Ledger}

theorem Task.change?_of_read {site : Site} {u : WrittenUpdate} {policy : Policy}
    {bind : Option String} {c : Change} (read : b.update u = .ok c) :
    Task.change? b (.perform site (.update u policy bind)) = some c := by
  rw [Task.change?, read]
  rfl

theorem Turn.faithful (turn : Turn cx grants b t ds cx' new fault)
    (plain : ∀ c ∈ t.change? b, c.exchangesPayload = false) : ∀ d ∈ ds, d.Faithful := by
  cases turn with
  | asked | unbound | outermost | popping | unhooked | scripted | released | stuck | finished
  | bottom | closing | mismatched | unwound | unwinding | drained => simp
  | hooked | opened | buried | exiting | left | draining => simp [Deed.Faithful]
  | changed read _ _ completed =>
    intro d hd
    exact (completed.permitted d hd).faithful (plain _ (Task.change?_of_read read))
  | refused read _ _ failed =>
    intro d hd
    exact (failed.permitted d hd).faithful (plain _ (Task.change?_of_read read))
  | releasing _ _ _ conduct =>
    intro d hd
    exact (conduct.permitted (.increment .heap none) d hd).faithful rfl
  | swept _ sweeps =>
    intro d hd
    rcases sweeps d hd with ⟨x, rfl⟩
    trivial

theorem Turn.inFlight_tasks (turn : Turn cx grants b t ds cx' new fault) (sound : cx.Sound)
    (furnished : cx.Furnished) (plain : ∀ c ∈ t.change? b, c.exchangesPayload = false) :
    ∀ e ∈ ds, ∀ d, e.removed? = some d → inFlight d.tasks = d.refs := by
  intro e he d removed
  exact d.inFlight_tasks
    ((turn.path.furnished sound furnished (turn.faithful plain)).2 e he d removed)

theorem Dooms.inFlight_eq {doomed : Option Doomed} (h : Dooms ds doomed)
    (gone : ∀ e ∈ ds, ∀ d, e.removed? = some d → inFlight d.tasks = d.refs) :
    inFlight (doomed.elim [] Doomed.tasks) = doomed.elim [] Doomed.refs := by
  cases doomed with
  | none => rfl
  | some d => exact gone (.destroy d) h.mem d rfl

/-- A change that fails among lawful books loses no count. -/
theorem Update.Failed.gains_eq {c : Change} (failed : c.Failed ds cx') (path : Path cx ds cx')
    (sound : cx.Sound) (plain : c.exchangesPayload = false)
    (held : ∀ x, cx.table.isStatic x = false → cx.table.slotCount x ≤ cx.table.count x) (x : Ref) :
    (ds.flatMap Deed.gains).count x = (ds.flatMap Deed.losses).count x := by
  rcases failed.balance plain with ⟨lost, unheld, balance⟩
  have none_lost : lost = [] := by
    apply List.eq_nil_iff_forall_not_mem.mpr
    intro r hr
    rcases unheld r hr with ⟨tracked, zero⟩
    have balanced := path.balance sound r tracked
    have slots := held r (path.isStatic_eq_false sound tracked)
    have gains := balance r
    have positive := List.count_pos_iff.mpr hr
    rw [zero] at balanced
    omega
  rw [balance x, none_lost]
  rfl

/-- What a step gains and loses is what the client earns and spends and what is taken in flight. -/
theorem Turn.transfer {tasks : List Task} (turn : Turn cx grants b t ds cx' new fault)
    (sound : cx.Sound) (furnished : cx.Furnished)
    (plain : ∀ c ∈ t.change? b, c.exchangesPayload = false)
    (covered : ∀ c ∈ t.change? b, ∀ r ∈ c.spent cx, 1 ≤ owned r) (keeps : t.isSweep = false)
    (held : ∀ x, cx.table.isStatic x = false →
      cx.table.count x = owned x + cx.table.slotCount x + (inFlight (t :: tasks)).count x)
    (x : Ref) (counted : cx'.table.isStatic x = false) :
    (ds.flatMap Deed.gains).count x + owned x + t.inFlight.count x =
      (ds.flatMap Deed.losses).count x +
        (t.change? b).elim owned (fun c => c.settle ⟨cx, [], grants⟩ owned) x +
        (inFlight new).count x := by
  have gone := turn.inFlight_tasks sound furnished plain
  have slots_le : ∀ x, cx.table.isStatic x = false → cx.table.slotCount x ≤ cx.table.count x := by
    intro x counted
    rw [held x counted]
    omega
  have fresh : ∀ r, cx.table.bare r = none → owned r = 0 := by
    intro r absent
    have zero := held r (by rw [Table.isStatic_eq_bare, absent]; rfl)
    rw [Table.count_eq_bare, absent] at zero
    simp only [Option.elim_none] at zero
    omega
  cases turn with
  | asked | outermost | popping | unhooked | released | finished
  | bottom | closing | mismatched | unwound | unwinding | drained => rfl
  | hooked | buried =>
    show 0 + owned x + 0 = 0 + owned x + 0
    rfl
  | opened =>
    rw [inFlight_concat, inFlight_map_perform]
    rfl
  | @left _ _ after =>
    have idle : inFlight (if after = .unwind then [.unwind] else []) = [] := by split <;> rfl
    rw [idle]
    rfl
  | scripted =>
    rw [inFlight_map_perform]
    rfl
  | unbound read =>
    rw [Task.change?, read]
    rfl
  | changed read ran path completed =>
    rw [Task.change?_of_read read] at plain covered ⊢
    have balance := completed.balance (plain _ rfl) x counted
    have settled := completed.settle_add_spent ran path sound (plain _ rfl) (covered _ rfl) fresh x
    rw [inFlight_concat, completed.dooms.inFlight_eq gone]
    simp only [Task.inFlight, List.append_nil, List.count_nil, Option.elim_some]
    omega
  | @refused _ _ _ _ c _ _ _ _ read ran path failed =>
    rw [Task.change?_of_read read] at plain ⊢
    have balance := failed.gains_eq path sound (plain _ rfl) slots_le x
    have unsettled : c.settle ⟨cx, [], grants⟩ owned = owned := by rw [Update.settle, ran]
    rw [Option.elim_some, unsettled, balance]
    rfl
  | releasing _ _ _ conduct =>
    have balance := conduct.balance x
    rw [inFlight_concat, conduct.dooms.inFlight_eq gone]
    simp only [Task.inFlight, Task.change?, Option.elim_none, List.count_append, List.count_cons,
      List.count_nil] at balance ⊢
    omega
  | @stuck r rest e w ran unheld =>
    have positive : 0 < (inFlight (.releaseRefs (r :: rest) :: tasks)).count r :=
      List.count_pos_iff.mpr (by simp [inFlight, Task.inFlight])
    have count := held r unheld.1
    rw [unheld.2] at count
    omega
  | @exiting _ _ _ d | @draining d =>
    rw [inFlight_concat, gone (.drain d) List.mem_cons_self d rfl]
    simp only [Task.inFlight, Task.change?, Option.elim_none, Deed.gains, Deed.losses, Doomed.refs,
      List.flatMap_cons, List.flatMap_nil, List.append_nil, List.count_nil]
    omega
  | swept _ sweeps => cases keeps

end Turning

namespace Books

variable {b : Books}

/-- Counts are made up of what the client holds, what is in slots and what is in flight. -/
structure Kept (b : Books) : Prop where
  sound : b.machine.context.Sound
  furnished : b.machine.context.Furnished
  balance : ∀ x, b.machine.context.table.isStatic x = false →
    b.machine.context.table.count x =
      b.owned x + b.machine.context.table.slotCount x + (inFlight b.machine.agenda).count x

theorem kept_start (settings : Settings) (memory : Memory) (program : List Command) :
    Kept ⟨.start settings memory program, fun _ => 0⟩ := by
  have empty : Sound { Context.new settings with table := .empty } := sound_of_empty rfl rfl
  refine ⟨sound_new settings, ?_, ?_⟩
  · refine ((path_new settings).furnished empty ?_ (by simp [Deed.Faithful, Payload.isContainer])).1
    intro x record hx
    rw [bare_empty] at hx
    cases hx
  · intro x counted
    have balance := (path_new settings).balance empty x counted
    have zero : Table.empty.count x = 0 := by
      rw [Table.count_eq_bare, bare_empty]
      rfl
    have agenda : inFlight (program.map (.perform .program)) = [] := inFlight_map_perform _ _
    show (Context.new settings).table.count x = 0 + (Context.new settings).table.slotCount x +
      (inFlight (program.map (.perform .program))).count x
    rw [agenda, List.count_nil, Nat.zero_add, Nat.add_zero]
    have slots : Table.empty.slotCount x = 0 := rfl
    rw [zero, slots] at balance
    simpa [Deed.gains, Deed.losses, Payload.refs, Payload.slots] using balance

theorem step_cases (b : Books) :
    b.step = b ∨ b.machine.fault = none ∧ ∃ t rest, b.machine.agenda = t :: rest := by
  cases running : b.machine.fault with
  | some f => exact Or.inl (by simp only [step, Machine.step, Machine.change?, running]; rfl)
  | none =>
    cases next : b.machine.agenda with
    | nil => exact Or.inl (by simp only [step, Machine.step, Machine.change?, running, next]; rfl)
    | cons t rest => exact Or.inr ⟨rfl, t, rest, rfl⟩

theorem Kept.step (h : b.Kept) (lawful : b.Lawful) : b.step.Kept := by
  rcases b.step_cases with same | ⟨running, t, rest, next⟩
  · rw [same]
    exact h
  · rcases Machine.turn_step h.sound running next with ⟨ds, new, turn, agenda⟩
    have change := Machine.change?_eq running next
    have plain := lawful.plain
    have covered := lawful.covered
    rw [change] at plain covered
    have keeps : t.isSweep = false := lawful.keeps t (by rw [next]; rfl)
    refine ⟨turn.path.sound h.sound,
      (turn.path.furnished h.sound h.furnished (turn.faithful plain)).1, ?_⟩
    intro x counted
    have held := h.balance
    rw [next] at held
    have transfer := turn.transfer h.sound h.furnished plain covered keeps held x counted
    have balance := turn.path.balance h.sound x counted
    have count := held x (turn.path.isStatic_eq_false h.sound counted)
    rw [← change] at transfer
    rw [inFlight_cons, List.count_append] at count
    show b.machine.step.context.table.count x =
      b.machine.change?.elim b.owned (fun c => c.settle b.machine.workspace b.owned) x +
        b.machine.step.context.table.slotCount x + (inFlight b.machine.step.agenda).count x
    rw [agenda, inFlight_append, List.count_append]
    dsimp only [Machine.workspace]
    omega

theorem inFlight_of_idle {m : Machine} (idle : m.Idle) : inFlight m.agenda = [] := by
  apply inFlight_eq_nil
  intro t ht
  rcases idle.agenda t ht with ⟨c, rfl⟩ | ⟨id, rfl⟩ <;> rfl

theorem inFlight_closing (m : Machine) : inFlight m.closing.agenda = [] := by
  unfold Machine.closing
  dsimp only
  split <;> rfl

theorem Kept.congr {c : Books} (h : b.Kept) (context : c.machine.context = b.machine.context)
    (owned : c.owned = b.owned)
    (flight : inFlight c.machine.agenda = inFlight b.machine.agenda) : c.Kept := by
  rcases h with ⟨sound, furnished, balance⟩
  rw [← context] at sound furnished
  rw [← context, ← owned, ← flight] at balance
  exact ⟨sound, furnished, balance⟩

theorem Kept.closing (h : b.Kept) (idle : b.machine.Idle) :
    Kept ⟨b.machine.closing, b.owned⟩ :=
  h.congr rfl rfl ((inFlight_closing _).trans (inFlight_of_idle idle).symm)

theorem Run.steps {rule : Books → Prop} (h : b.Run rule) (n : Nat)
    (lawful : ∀ k < n, rule (b.steps k)) : (b.steps n).Run rule := by
  induction n generalizing b with
  | zero => exact h
  | succ n ih =>
    have first := h.step (lawful 0 (Nat.zero_lt_succ n))
    exact ih first fun k hk => lawful (k + 1) (Nat.succ_lt_succ hk)

theorem Run.kept (h : b.Run Lawful) : b.Kept := by
  induction h with
  | start settings memory program => exact kept_start settings memory program
  | step _ lawful ih => exact ih.step lawful
  | closing _ idle ih => exact ih.closing idle

theorem Kept.count_pos (h : b.Kept) {x : Ref} (held : 0 < b.owned x ∨
    0 < b.machine.context.table.slotCount x ∨ x ∈ inFlight b.machine.agenda)
    (counted : b.machine.context.table.isStatic x = false) :
    0 < b.machine.context.table.count x := by
  rw [h.balance x counted]
  rcases held with held | held | flying
  · omega
  · omega
  · have := List.count_pos_iff.mpr flying
    omega

/-- What is held, stored or in flight is there and does not wait to be destroyed. -/
theorem Kept.find? (h : b.Kept) {x : Ref} (held : 0 < b.owned x ∨
    0 < b.machine.context.table.slotCount x ∨ x ∈ inFlight b.machine.agenda) :
    ∃ record, b.machine.context.table.find? x = some record ∧ record.header.state ≠ .pending := by
  have positive := h.count_pos held
  cases found : b.machine.context.table.find? x with
  | none =>
    have absent : b.machine.context.table.isStatic x = false := by rw [Table.isStatic, found]; rfl
    have zero : b.machine.context.table.count x = 0 := by rw [Table.count, found]; rfl
    exact absurd zero (Nat.ne_of_gt (positive absent))
  | some record =>
    refine ⟨record, rfl, ?_⟩
    intro pending
    have shown := Table.bare_of_find? found
    have zero : record.core.header.refcount = 0 := h.sound.refcount_of_pending shown pending
    have tracked : b.machine.context.table.isStatic x = false := by
      rw [Table.isStatic_eq_false found]
      intro scope
      cases pending.symm.trans ((h.sound.proper x _ shown).static.mpr scope)
    rw [Table.count_of_find? found] at positive
    exact absurd zero (Nat.ne_of_gt (positive tracked))

theorem Kept.ends_decrement (h : b.Kept) {r : Ref} (flying : r ∈ inFlight b.machine.agenda)
    (journal : List Notice) (grants : Grants) :
    (Act.decrement .heap false r).Ends ⟨b.machine.context, journal, grants⟩ fun a _ =>
      ∃ doomed, a = .ok doomed := by
  apply (Act.ends_decrement .heap false r ⟨b.machine.context, journal, grants⟩).mono
  intro a cx outcome
  cases outcome with
  | dangling absent =>
    rcases h.find? (Or.inr (Or.inr flying)) with ⟨record, found, _⟩
    rw [absent] at found
    cases found
  | underflow found tracked zero =>
    have counted : b.machine.context.table.isStatic r = false :=
      (Table.isStatic_eq_false found).mpr (Family.creationScope_ne_of_tracks tracked)
    have positive := h.count_pos (Or.inr (Or.inr flying)) counted
    rw [Table.count_of_find? found, zero] at positive
    exact absurd positive (Nat.lt_irrefl 0)
  | ignored | lowered | deferred => exact ⟨none, rfl⟩
  | destroyed => exact ⟨_, rfl⟩

/-- References are sound: between operations, the count of a record is the number of counts that the
client holds and of slots that refer to it; what is held or stored is there; and neither giving up
the references of a container nor draining a queue ever fails. -/
theorem Run.reference_soundness (h : b.Run Lawful) :
    (b.machine.Idle →
      (∀ x record, b.machine.context.table.find? x = some record →
        record.header.creationScope ≠ staticScope →
        record.header.refcount = b.owned x + b.machine.context.table.slotCount x) ∧
      ∀ x, 0 < b.owned x ∨ 0 < b.machine.context.table.slotCount x →
        ∃ record, b.machine.context.table.find? x = some record ∧ record.header.state ≠ .pending) ∧
    (∀ r refs rest, b.machine.agenda = .releaseRefs (r :: refs) :: rest → ∀ journal grants e w,
      Act.decrement .heap false r ⟨b.machine.context, journal, grants⟩ ≠ .error e w) ∧
    ∀ journal grants e w, Act.unearthNext ⟨b.machine.context, journal, grants⟩ ≠ .error e w := by
  have kept := h.kept
  refine ⟨?_, ?_, kept.sound.unearthNext_ne_error⟩
  · intro idle
    constructor
    · intro x record found tracked
      have balance := kept.balance x ((Table.isStatic_eq_false found).mpr tracked)
      rw [inFlight_of_idle idle, Table.count_of_find? found] at balance
      exact balance
    · intro x held
      exact kept.find? (held.imp_right Or.inl)
  · intro r refs rest next journal grants
    have flying : r ∈ inFlight b.machine.agenda := by
      rw [next]
      simp [inFlight, Task.inFlight]
    exact (kept.ends_decrement flying journal grants).ne_error

/-- A string is stored in a list, and the list is given up. -/
def listed : Books where
  machine := .start {} .ample [.update (.newStr []) .strict none,
    .update (.newList .object [.object (.ref ⟨2, 0⟩)]) .strict none,
    .update (.decrement .heap false (.ref ⟨3, 0⟩)) .strict none]
  owned := fun _ => 0

theorem reference_soundness_listed :
    (∃ record, (listed.steps 4).machine.context.table.find? ⟨2, 0⟩ = some record ∧
      record.header.refcount = 1 + 1) ∧
    ∀ e w,
      Act.decrement .heap false ⟨2, 0⟩ (listed.steps 5).machine.workspace ≠ .error e w := by
  have stored := ((Run.start _ _ _).steps (b := listed) 4 (by decide)).reference_soundness
  have leaving := ((Run.start _ _ _).steps (b := listed) 5 (by decide)).reference_soundness
  have idle : (listed.steps 4).machine.Idle :=
    ⟨rfl, fun t ht => Or.inl ⟨_, List.mem_singleton.mp ht⟩⟩
  constructor
  · have count := (stored.1 idle).1 ⟨2, 0⟩ _ rfl (by decide)
    exact ⟨_, rfl, count.trans (by decide)⟩
  · exact leaving.2.1 _ _ _ rfl [] _

end Books

end ScopedHeap
