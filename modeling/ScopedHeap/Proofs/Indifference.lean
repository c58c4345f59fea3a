import ScopedHeap.Proofs.Agreement
import ScopedHeap.Proofs.History
import ScopedHeap.Proofs.Termination

/-!
# Settings and what a program does

Two machines are alike if they differ in the settings of their contexts and in what follows from
these alone: the notices of their traces, and the settings that their traces show. Machines that are
alike go on to be alike, step by step and through a teardown, unless the list limit of one is lower
and its program runs into it.
-/
namespace ScopedHeap

def Context.plain (cx : Context) : Context := { cx with settings := {} }

def Answer.plain : Answer → Answer
  | .settings _ => .settings {}
  | answer => answer

def Outcome.plain (outcome : Outcome) : Outcome := outcome.map Answer.plain

/-- The event with the settings left out of it, or nothing if it is a notice. -/
def Event.plain? : Event → Option Event
  | .notice _ => none
  | .hookStarted owner name payload => some (.hookStarted owner name payload)
  | .hookAnswered name outcome => some (.hookAnswered name (Outcome.plain outcome))
  | .answered outcome after => some (.answered (Outcome.plain outcome) after.plain)
  | .blockOpened id => some (.blockOpened id)
  | .blockClosing => some .blockClosing
  | .blockClosed after => some (.blockClosed after.plain)

/-- The event tells that a list could not become long enough. -/
def Event.tellsOverflow : Event → Bool
  | .answered (.error e) _ | .hookAnswered _ (.error e) | .notice (.fatal e) => e.isOverflow
  | _ => false

theorem Answer.bound?_plain (a : Answer) : a.plain.bound? = a.bound? := by
  cases a <;> rfl

theorem Event.filterMap_plain?_notices (journal : List Notice) (trace : List Event) :
    (journal.map Event.notice ++ trace).filterMap Event.plain? =
      trace.filterMap Event.plain? := by
  induction journal with
  | nil => rfl
  | cons n rest ih => exact ih

namespace Context

variable {s s' : Settings} {cx cx' : Context}

theorem Alike.plain_eq (h : cx.Alike s s' cx') : cx'.plain = cx.plain := by
  rw [h.others]
  rfl

theorem Alike.current_eq (h : cx.Alike s s' cx') : cx'.current = cx.current := by
  rw [h.others]
  rfl

theorem Alike.scopes_eq (h : cx.Alike s s' cx') : cx'.scopes = cx.scopes := by rw [h.others]

theorem Alike.table_eq (h : cx.Alike s s' cx') : cx'.table = cx.table := by rw [h.others]

theorem Alike.answer_eq (h : cx.Alike s s' cx') (q : Question) :
    q = .settings ∨ cx'.answer q = cx.answer q := by
  rw [h.others]
  cases q with
  | settings => exact Or.inl rfl
  | _ => exact Or.inr rfl

end Context

namespace Machine

open Act

variable {s s' : Settings} {m m' : Machine}

/-- A list could not become long enough, and the program has been told. -/
def overflowed (m : Machine) : Bool := m.trace.any Event.tellsOverflow

/-- The machines have contexts with these settings, and are the same in all that does not tell
them. -/
structure Alike (s s' : Settings) (m m' : Machine) : Prop where
  context : m.context.Alike s s' m'.context
  memory : m'.memory = m.memory
  bindings : m'.bindings = m.bindings
  agenda : m'.agenda = m.agenda
  fault : m'.fault = m.fault
  trace : m'.trace.filterMap Event.plain? = m.trace.filterMap Event.plain?

/-- The machines are alike, or the first of them had less room and has run out of it. -/
def Parallel (s s' : Settings) (m m' : Machine) : Prop :=
  s.listLimit ≠ s'.listLimit ∧ m.overflowed = true ∨ m.Alike s s' m'

namespace Alike

theorem tell (h : m.Alike s s' m') {e e' : Event} (same : e'.plain? = e.plain?) :
    (m.tell e).Alike s s' (m'.tell e') where
  context := h.context
  memory := h.memory
  bindings := h.bindings
  agenda := h.agenda
  fault := h.fault
  trace := by
    show (e' :: m'.trace).filterMap Event.plain? = (e :: m.trace).filterMap Event.plain?
    rw [List.filterMap_cons, List.filterMap_cons, same, h.trace]

theorem tellAt (h : m.Alike s s' m') (site : Site) (e : Event) :
    (m.tellAt site e).Alike s s' (m'.tellAt site e) := by
  cases site with
  | program => exact h.tell rfl
  | hook name => exact h

theorem schedule (h : m.Alike s s' m') (tasks : List Task) :
    (m.schedule tasks).Alike s s' (m'.schedule tasks) where
  context := h.context
  memory := h.memory
  bindings := h.bindings
  agenda := congrArg (tasks ++ ·) h.agenda
  fault := h.fault
  trace := h.trace

theorem stop (h : m.Alike s s' m') (f : Fault) : (m.stop f).Alike s s' (m'.stop f) where
  context := h.context
  memory := h.memory
  bindings := h.bindings
  agenda := h.agenda
  fault := rfl
  trace := h.trace

theorem abort (h : m.Alike s s' m') (e : Error) : (m.abort e).Alike s s' (m'.abort e) :=
  (h.tell rfl).stop (.error e)

theorem note (h : m.Alike s s' m') (journal journal' : List Notice) :
    { m with trace := journal.map Event.notice ++ m.trace }.Alike s s'
      { m' with trace := journal'.map Event.notice ++ m'.trace } where
  context := h.context
  memory := h.memory
  bindings := h.bindings
  agenda := h.agenda
  fault := h.fault
  trace := by
    rw [Event.filterMap_plain?_notices, Event.filterMap_plain?_notices]
    exact h.trace

theorem workspace (h : m.Alike s s' m') : m.workspace.Alike s s' m'.workspace :=
  ⟨h.context, congrFun h.memory 0⟩

theorem settle (h : m.Alike s s' m') {w w' : Workspace} (alike : w.Alike s s' w') :
    (m.settle w).Alike s s' (m'.settle w') where
  context := alike.context
  memory := congrArg Memory.rest h.memory
  bindings := h.bindings
  agenda := h.agenda
  fault := h.fault
  trace := (h.note w.journal w'.journal).trace

theorem bindings_deliver (h : m.Alike s s' m') (reply : Reply) {o o' : Outcome}
    (same : o'.plain = o.plain) :
    (m'.deliver reply o').bindings = (m.deliver reply o).bindings := by
  obtain ⟨site, policy, bind⟩ := reply
  cases bind with
  | none => exact h.bindings
  | some name =>
    cases o with
    | error e =>
      cases o' with
      | error e' => exact h.bindings
      | ok a' => cases same
    | ok a =>
      cases o' with
      | error e' => cases same
      | ok a' =>
        have answers : a'.bound? = a.bound? := by
          rw [← a'.bound?_plain, ← a.bound?_plain, Except.ok.inj same]
        show a'.bound?.elim m'.bindings (m'.bindings.bind name) =
          a.bound?.elim m.bindings (m.bindings.bind name)
        rw [answers, h.bindings]

theorem deliver (h : m.Alike s s' m') (reply : Reply) {o o' : Outcome}
    (same : o'.plain = o.plain) : (m.deliver reply o).Alike s s' (m'.deliver reply o') := by
  have bound : { m with bindings := (m.deliver reply o).bindings }.Alike s s'
      { m' with bindings := (m'.deliver reply o').bindings } :=
    ⟨h.context, h.memory, h.bindings_deliver reply same, h.agenda, h.fault, h.trace⟩
  obtain ⟨site, policy, bind⟩ := reply
  cases site with
  | program =>
    exact bound.tell (congrArg some (congrArg₂ Event.answered same h.context.plain_eq))
  | hook name => exact bound.tell (congrArg some (congrArg (Event.hookAnswered name) same))

theorem fail (h : m.Alike s s' m') (reply : Reply) (e : Error) :
    (m.fail reply e).Alike s s' (m'.fail reply e) := by
  unfold Machine.fail
  cases reply.policy with
  | checked => exact h.deliver reply rfl
  | strict => exact h.abort e

theorem act_of_agree {α : Type} {x : Act α} {onError : Machine → Error → Machine}
    {onValue : Machine → α → Machine} (h : m.Alike s s' m')
    (agree : Agree s s' (x m.workspace) (x m'.workspace))
    (failed : ∀ n n' e, n.Alike s s' n' → (onError n e).Alike s s' (onError n' e))
    (passed : ∀ n n' a, n.Alike s s' n' → (onValue n a).Alike s s' (onValue n' a)) :
    (m.act x onError onValue).Alike s s' (m'.act x onError onValue) := by
  unfold Machine.act
  generalize x m.workspace = result at agree ⊢
  generalize x m'.workspace = result' at agree ⊢
  cases agree with
  | ok alike => exact passed _ _ _ (h.settle alike)
  | error alike => exact failed _ _ _ (h.settle alike)

theorem act {α : Type} {x : Act α} {onError : Machine → Error → Machine}
    {onValue : Machine → α → Machine} (h : m.Alike s s' m') (blind : x.Blind s s')
    (failed : ∀ n n' e, n.Alike s s' n' → (onError n e).Alike s s' (onError n' e))
    (passed : ∀ n n' a, n.Alike s s' n' → (onValue n a).Alike s s' (onValue n' a)) :
    (m.act x onError onValue).Alike s s' (m'.act x onError onValue) :=
  h.act_of_agree (blind.agree h.workspace) failed passed

end Alike

/-- A command that fails with an overflow tells it, or has the program end with it. -/
theorem overflowed_fail (m : Machine) (reply : Reply) {e : Error} (overflow : e.isOverflow = true) :
    (m.fail reply e).overflowed = true := by
  have told : ∀ (m : Machine) (event : Event), event.tellsOverflow = true →
      (m.tell event).overflowed = true := by
    intro m event tells
    exact List.any_eq_true.mpr ⟨event, List.mem_cons_self, tells⟩
  obtain ⟨site, policy, bind⟩ := reply
  cases policy with
  | strict => exact told m (.notice (.fatal e)) overflow
  | checked =>
    cases site with
    | program => exact told _ (.answered (.error e) m.context) overflow
    | hook name => exact told _ (.hookAnswered name (.error e)) overflow

theorem sweepRefs_cons {w : Workspace} {r : Ref} (rest : List Ref) {record gone : Record}
    {table : Table} (found : w.context.table.find? r = some record)
    (removed : (w.context.table.detach r.index).remove r = .ok (gone, table)) :
    ∃ journal, sweepRefs (r :: rest) w = sweepRefs rest ⟨{ w.context with
      table := table
      counters := { w.context.counters with leaked := w.context.counters.leaked + 1 } },
      journal, w.grants⟩ := by
  have taken : ∀ journal, (do
      modifyTable (·.detach r.index)
      let _ ← unearth r
      modifyCounters fun c => { c with leaked := c.leaked + 1 }
      sweepRefs rest) ⟨w.context, journal, w.grants⟩ = sweepRefs rest ⟨{ w.context with
        table := table
        counters := { w.context.counters with leaked := w.context.counters.leaked + 1 } },
        journal, w.grants⟩ := by
    intro journal
    show (unearth r >>= fun _ => modifyCounters (fun c => { c with leaked := c.leaked + 1 }) >>=
      fun _ => sweepRefs rest) ⟨{ w.context with table := w.context.table.detach r.index },
        journal, w.grants⟩ = _
    rw [bind_apply, unearth_apply removed]
    rfl
  by_cases reports : w.context.settings.leakReport = true
  · refine ⟨_, Eq.trans ?_ (taken
      (.leaked r record.header.creationScope record.header.refcount :: w.journal))⟩
    show (if w.context.settings.leakReport = true then _ else _ : Act Unit) w = _
    rw [if_pos reports, bind_apply, read_apply, Context.header, Context.find, Table.find, found]
    rfl
  · refine ⟨_, Eq.trans ?_ (taken w.journal)⟩
    show (if w.context.settings.leakReport = true then _ else _ : Act Unit) w = _
    rw [if_neg reports]

theorem agree_sweepRefs (refs : List Ref) (w w' : Workspace) (alike : w.Alike s s' w')
    (sound : w.context.Sound) (live : w.context.table.live = refs) :
    Agree s s' (sweepRefs refs w) (sweepRefs refs w') := by
  induction refs generalizing w w' with
  | nil => exact .ok alike
  | cons r rest ih =>
    obtain ⟨record, found, _⟩ := sound.find?_of_live (r := r) (by rw [live]; simp)
    obtain ⟨detached, hdetached, _⟩ := Table.bare_eq_some_iff.mp
      ((w.context.table.bare_detach r.index r).trans (Table.bare_of_find? found))
    obtain ⟨table, removed⟩ := Table.remove_eq_ok hdetached
    have move := @Context.Move.sweep w.context r rest detached table live removed
    obtain ⟨l, listed, _⟩ := sound.listed
    obtain ⟨journal, here⟩ := sweepRefs_cons rest found removed
    obtain ⟨journal', there⟩ := sweepRefs_cons (w := w') rest
      (by rw [alike.context.table_eq]; exact found)
      (by rw [alike.context.table_eq]; exact removed)
    rw [here, there]
    apply ih
    · refine ⟨⟨alike.context.settings, ?_⟩, alike.grants⟩
      dsimp only
      rw [alike.context.others]
    · exact move.sound sound
    · exact listed.live_remove sound.vacant live removed

theorem agree_sweep (alike : m.Alike s s' m') (sound : m.context.Sound) :
    Agree s s' (sweep m.workspace) (sweep m'.workspace) := by
  show Agree s s'
    ((sweepRefs m.context.table.live >>= fun _ => Act.context >>= fun cx =>
      notify (.tornDown cx.stats.allocated cx.stats.destroyed cx.stats.leaked)) m.workspace)
    ((sweepRefs m'.context.table.live >>= fun _ => Act.context >>= fun cx =>
      notify (.tornDown cx.stats.allocated cx.stats.destroyed cx.stats.leaked)) m'.workspace)
  rw [bind_apply, bind_apply, alike.context.table_eq]
  have agree := agree_sweepRefs _ m.workspace m'.workspace alike.workspace sound rfl
  generalize sweepRefs m.context.table.live m.workspace = result at agree ⊢
  generalize sweepRefs m.context.table.live m'.workspace = result' at agree ⊢
  cases agree with
  | ok alike => exact .ok ⟨alike.context, alike.grants⟩
  | error alike => exact .error alike

namespace Alike

variable (h : m.Alike s s' m')

include h

theorem popScope (reply : Reply) : (m.popScope reply).Alike s s' (m'.popScope reply) := by
  unfold Machine.popScope
  rw [h.context.current_eq]
  by_cases root : m.context.current = rootScope
  · rw [if_pos root, if_pos root]
    exact h.fail reply _
  · rw [if_neg root, if_neg root]
    exact h.schedule _

theorem openBlock (site : Site) (body : List Command) :
    (m.openBlock site body).Alike s s' (m'.openBlock site body) :=
  h.act blind_pushScope (fun _ _ e alike => alike.abort e)
    fun _ _ _ alike => (alike.tellAt site _).schedule _

theorem leaveBlock (site : Site) (id : ScopeId) :
    (m.leaveBlock site id).Alike s s' (m'.leaveBlock site id) := by
  have told := h.tellAt site .blockClosing
  unfold Machine.leaveBlock
  dsimp only
  rw [told.context.current_eq]
  by_cases here : (m.tellAt site .blockClosing).context.current ≠ id
  · rw [if_pos here, if_pos here]
    exact told.abort _
  · rw [if_neg here, if_neg here]
    by_cases root : id = rootScope
    · rw [if_pos root, if_pos root]
      exact told.abort _
    · rw [if_neg root, if_neg root]
      exact told.schedule _

theorem afterExit (after : AfterExit) (result : Except Error Unit) :
    (m.afterExit after result).Alike s s' (m'.afterExit after result) := by
  cases result with
  | ok u =>
    cases after with
    | answer reply => exact h.deliver reply rfl
    | blockEnd site id =>
      cases site with
      | program => exact h.tell (congrArg some (congrArg Event.blockClosed h.context.plain_eq))
      | hook name => exact h.tell rfl
    | unwind => exact h.schedule _
  | error e =>
    cases after with
    | answer reply => exact h.fail reply e
    | blockEnd site id => exact h.abort e
    | unwind => exact h.abort e

theorem exitScope (scope : ScopeId) (drained : Nat) (after : AfterExit) :
    (m.exitScope scope drained after).Alike s s' (m'.exitScope scope drained after) := by
  refine h.act blind_unearthNext (fun _ _ e alike => alike.afterExit after (.error e)) ?_
  intro n n' next alike
  cases next with
  | some doomed => exact alike.schedule _
  | none =>
    exact alike.act (blind_exitScope scope drained)
      (fun _ _ e alike => alike.afterExit after (.error e))
      fun _ _ _ alike => alike.afterExit after (.ok ())

theorem ask (site : Site) (q : WrittenQuery) (policy : Policy) (bind : Option String) :
    (m.perform site (.ask q policy bind)).Alike s s' (m'.perform site (.ask q policy bind)) := by
  unfold Machine.perform
  dsimp only
  rw [h.bindings]
  cases m.bindings.query q with
  | error f => exact h.stop f
  | ok question =>
    dsimp only
    rcases h.context.answer_eq question with rfl | same
    · exact h.deliver _ rfl
    · rw [same]
      cases m.context.answer question with
      | ok answer => exact h.deliver _ rfl
      | error e => exact h.fail _ e

/-- A change may run into the lower limit: then the program is told. -/
theorem update (roomier : s.listLimit ≤ s'.listLimit) (site : Site) (u : WrittenUpdate)
    (policy : Policy) (bind : Option String) :
    Parallel s s' (m.perform site (.update u policy bind))
      (m'.perform site (.update u policy bind)) := by
  unfold Machine.perform
  dsimp only
  rw [h.bindings]
  cases m.bindings.update u with
  | error f => exact Or.inr (h.stop f)
  | ok c =>
    dsimp only
    rcases matches_change roomier c m.workspace m'.workspace h.workspace with
      ⟨e, w, ran, less, overflow⟩ | agree
    · refine Or.inl ⟨less, ?_⟩
      unfold Machine.act
      rw [ran]
      exact overflowed_fail _ _ overflow
    · exact Or.inr (h.act_of_agree agree (fun _ _ e alike => alike.fail _ e)
        fun _ _ _ alike => alike.schedule _)

theorem setHook (site : Site) (target : Operand) (name : String) (script : List Command) :
    (m.perform site (.setHook target name script)).Alike s s'
      (m'.perform site (.setHook target name script)) := by
  unfold Machine.perform
  dsimp only
  rw [h.bindings]
  cases m.bindings.record target with
  | error f => exact h.stop f
  | ok r =>
    exact h.act (blind_installHook r _) (fun _ _ e alike => alike.abort e)
      fun _ _ _ alike => alike.deliver _ rfl

theorem execute (roomier : s.listLimit ≤ s'.listLimit) (sound : m.context.Sound) (t : Task) :
    Parallel s s' (m.execute t) (m'.execute t) := by
  cases t with
  | perform site c =>
    cases c with
    | ask q policy bind => exact Or.inr (h.ask site q policy bind)
    | update u policy bind => exact h.update roomier site u policy bind
    | popScope policy => exact Or.inr (h.popScope _)
    | setHook target name script => exact Or.inr (h.setHook site target name script)
    | block body => exact Or.inr (h.openBlock site body)
  | runScript owner name payload script => exact Or.inr ((h.tell rfl).schedule _)
  | releaseRefs refs =>
    cases refs with
    | nil => exact Or.inr h
    | cons r rest =>
      refine Or.inr ?_
      unfold Machine.execute
      exact h.act (blind_decrement .heap false r) (fun _ _ e alike => alike.abort e)
        fun _ _ _ alike => alike.schedule _
  | bury r scope hooked =>
    exact Or.inr (h.act (blind_bury r scope hooked) (fun _ _ e alike => alike.abort e)
      fun _ _ _ alike => alike)
  | finish reply closing answer =>
    exact Or.inr ((h.note closing.reverse closing.reverse).deliver reply rfl)
  | exitScope scope drained after => exact Or.inr (h.exitScope scope drained after)
  | leaveBlock site id => exact Or.inr (h.leaveBlock site id)
  | unwind =>
    refine Or.inr ?_
    unfold Machine.execute
    dsimp only
    rw [h.context.current_eq]
    by_cases root : m.context.current = rootScope
    · rw [if_pos root, if_pos root]
      exact h
    · rw [if_neg root, if_neg root]
      exact h.schedule _
  | drain =>
    refine Or.inr ?_
    unfold Machine.execute
    refine h.act blind_unearthNext (fun _ _ e alike => alike.abort e) ?_
    intro n n' next alike
    cases next with
    | some doomed => exact alike.schedule _
    | none => exact alike
  | sweep =>
    exact Or.inr (h.act_of_agree (agree_sweep h sound)
      (fun _ _ e alike => alike.abort e) fun _ _ _ alike => alike)

theorem step (roomier : s.listLimit ≤ s'.listLimit) (sound : m.context.Sound) :
    Parallel s s' m.step m'.step := by
  by_cases finished : m.isFinished = true
  · have finished' : m'.isFinished = true := by
      rw [isFinished, h.fault, h.agenda]
      exact finished
    rw [step_of_isFinished finished, step_of_isFinished finished']
    exact Or.inr h
  · simp only [isFinished, Bool.or_eq_true, not_or, Bool.not_eq_true, Option.isSome_eq_false_iff,
      Option.isNone_iff_eq_none] at finished
    obtain ⟨running, left⟩ := finished
    cases next : m.agenda with
    | nil => simp [next] at left
    | cons t rest =>
      have taken : { m with agenda := rest }.Alike s s' { m' with agenda := rest } :=
        ⟨h.context, h.memory, h.bindings, rfl, h.fault, h.trace⟩
      rw [step_eq running next, step_eq (h.fault.trans running) (h.agenda.trans next)]
      exact taken.execute roomier sound t

theorem closing : m.closing.Alike s s' m'.closing := by
  unfold Machine.closing
  dsimp only
  rw [h.context.scopes_eq]
  exact ⟨h.context, h.memory, h.bindings, rfl, h.fault, rfl⟩

end Alike

end Machine

end ScopedHeap
