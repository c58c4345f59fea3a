import ScopedHeap.Machine
import ScopedHeap.Proofs.Changes

/-!
# What one step does

`Turn` lists, task by task, all that carrying out a task can come to: the deeds done to the context,
the tasks put in front of the agenda, and the fault, if the program stops. Every step of a machine
with a sound context is a turn (`turn_step`), so what turns keep holds in every state of every run.
-/
namespace ScopedHeap

open Context

/-- What carrying out a task in context `cx` with variables `b` comes to: deeds, the context
afterwards, new tasks and the fault. -/
inductive Turn (cx : Context) (grants : Grants) (b : Bindings) :
    Task → List Deed → Context → List Task → Option Fault → Prop
  | asked {site : Site} {q : WrittenQuery} {policy : Policy} {bind : Option String}
      {fault : Option Fault} : Turn cx grants b (.perform site (.ask q policy bind)) [] cx [] fault
  | unbound {site : Site} {u : WrittenUpdate} {policy : Policy} {bind : Option String} {f : Fault}
      (read : b.update u = .error f) :
      Turn cx grants b (.perform site (.update u policy bind)) [] cx [] (some f)
  | changed {site : Site} {u : WrittenUpdate} {policy : Policy} {bind : Option String} {c : Change}
      {effect : Effect} {w : Workspace} {ds : List Deed} (read : b.update u = .ok c)
      (ran : Act.change c ⟨cx, [], grants⟩ = .ok effect w) (path : Path cx ds w.context)
      (completed : c.Completed cx effect ds w.context) :
      Turn cx grants b (.perform site (.update u policy bind)) ds w.context
        (effect.doomed.elim [] Doomed.tasks ++
          [.finish ⟨site, policy, bind⟩ effect.closing effect.answer]) none
  | refused {site : Site} {u : WrittenUpdate} {policy : Policy} {bind : Option String} {c : Change}
      {e : Error} {w : Workspace} {ds : List Deed} {fault : Option Fault}
      (read : b.update u = .ok c) (ran : Act.change c ⟨cx, [], grants⟩ = .error e w)
      (path : Path cx ds w.context) (failed : c.Failed ds w.context) :
      Turn cx grants b (.perform site (.update u policy bind)) ds w.context [] fault
  | outermost {site : Site} {policy : Policy} {fault : Option Fault}
      (root : cx.current = rootScope) :
      Turn cx grants b (.perform site (.popScope policy)) [] cx [] fault
  | popping {site : Site} {policy : Policy} (deep : cx.current ≠ rootScope) :
      Turn cx grants b (.perform site (.popScope policy)) [] cx
        [.exitScope cx.current 0 (.answer ⟨site, policy, none⟩)] none
  | unhooked {site : Site} {target : Operand} {name : String} {script : List Command}
      {fault : Option Fault} :
      Turn cx grants b (.perform site (.setHook target name script)) [] cx [] fault
  | hooked {site : Site} {target : Operand} {name : String} {script : List Command} {r : Ref}
      {record : Record} (found : cx.table.find? r = some record)
      (free : record.header.hook = none) :
      Turn cx grants b (.perform site (.setHook target name script)) [.hook r (.script name script)]
        { cx with table := cx.table.modifyAt r.index (Record.setHook (.script name script)) }
        [] none
  | opened {site : Site} {body : List Command} :
      Turn cx grants b (.perform site (.block body)) [.enter] { cx with scopes := cx.scopes.push }
        (body.map (.perform site.inner) ++ [.leaveBlock site cx.scopes.push.current]) none
  | scripted {owner : Ref} {name : String} {payload : Payload} {script : List Command} :
      Turn cx grants b (.runScript owner name payload script) [] cx
        (script.map (.perform (.hook name))) none
  | released : Turn cx grants b (.releaseRefs []) [] cx [] none
  | releasing {r : Ref} {rest : List Ref} {doomed : Option Doomed} {w : Workspace} {d : Deed}
      (ran : Act.decrement .heap false r ⟨cx, [], grants⟩ = .ok doomed w)
      (move : Move cx d w.context) (lowers : d.Lowers) (conduct : Conduct [d] doomed [r] []) :
      Turn cx grants b (.releaseRefs (r :: rest)) [d] w.context
        (doomed.elim [] Doomed.tasks ++ [.releaseRefs rest]) none
  | stuck {r : Ref} {rest : List Ref} {e : Error} {w : Workspace}
      (ran : Act.decrement .heap false r ⟨cx, [], grants⟩ = .error e w) (unheld : cx.Unheld r) :
      Turn cx grants b (.releaseRefs (r :: rest)) [] cx [] (some (.error e))
  | buried {r : Ref} {scope : ScopeId} {hooked : Bool} :
      Turn cx grants b (.bury r scope hooked) [.bury]
        { cx with counters := { cx.counters with destroyed := cx.counters.destroyed + 1 } } [] none
  | finished {reply : Reply} {closing : List Notice} {answer : Answer} :
      Turn cx grants b (.finish reply closing answer) [] cx [] none
  | exiting {scope : ScopeId} {drained : Nat} {after : AfterExit} {d : Doomed} {w : Workspace}
      (ran : Act.unearthNext ⟨cx, [], grants⟩ = .ok (some d) w)
      (move : Move cx (.drain d) w.context) :
      Turn cx grants b (.exitScope scope drained after) [.drain d] w.context
        (d.tasks ++ [.exitScope scope (drained + 1) after]) none
  | left {scope : ScopeId} {drained : Nat} {after : AfterExit} {cx' : Context}
      (move : Move cx .leave cx') :
      Turn cx grants b (.exitScope scope drained after) [.leave] cx'
        (if after = .unwind then [.unwind] else []) none
  | bottom {scope : ScopeId} {drained : Nat} {after : AfterExit} {fault : Option Fault}
      (empty : cx.scopes.active.queue = []) (root : cx.scopes.outer = []) :
      Turn cx grants b (.exitScope scope drained after) [] cx [] fault
  | closing {site : Site} {id : ScopeId} (here : cx.current = id) (deep : id ≠ rootScope) :
      Turn cx grants b (.leaveBlock site id) [] cx [.exitScope id 0 (.blockEnd site id)] none
  | mismatched {site : Site} {id : ScopeId} {f : Fault} :
      Turn cx grants b (.leaveBlock site id) [] cx [] (some f)
  | unwound (root : cx.current = rootScope) : Turn cx grants b .unwind [] cx [] none
  | unwinding (deep : cx.current ≠ rootScope) :
      Turn cx grants b .unwind [] cx [.exitScope cx.current 0 .unwind] none
  | draining {d : Doomed} {w : Workspace} (ran : Act.unearthNext ⟨cx, [], grants⟩ = .ok (some d) w)
      (move : Move cx (.drain d) w.context) :
      Turn cx grants b .drain [.drain d] w.context (d.tasks ++ [.drain]) none
  | drained (empty : cx.scopes.active.queue = []) : Turn cx grants b .drain [] cx [] none
  | swept {ds : List Deed} {cx' : Context} (path : Path cx ds cx')
      (sweeps : ∀ d ∈ ds, ∃ x, d = .sweep x) (all : ds.length = cx.table.live.length) :
      Turn cx grants b .sweep ds cx' [] none

namespace Table

/-- When the first record of the live list is taken out, the others stay in their order. -/
theorem Listed.live_remove {t table : Table} {l : List Nat} {r : Ref} {rest : List Ref}
    {gone : Record} (h : t.Listed l) (vacant : t.Vacant) (first : t.live = r :: rest)
    (removed : (t.detach r.index).remove r = .ok (gone, table)) : table.live = rest := by
  have spec := (remove_spec (vacant.relink (t.relinks_detach r.index)) removed).1
  rw [h.live_eq] at first
  obtain ⟨i, k, rfl, rfl, rfl⟩ := List.map_eq_cons_iff.mp first
  have listed := h.detach (i := i) List.mem_cons_self
  rw [List.erase_cons_head] at listed
  obtain ⟨hi, _⟩ := List.nodup_cons.mp h.nodup
  rw [(listed.remove spec hi).live_eq]
  apply List.map_congr_left
  intro j hj
  -- the record in cell `j` is found under the same reference before and after
  obtain ⟨record, hrecord⟩ := h.linked.recordAt? (List.mem_cons_of_mem i hj)
  have found : t.find? (t.refAt j) = some record := by rw [find?_refAt, hrecord]
  have hne : t.refAt j ≠ t.refAt i := by
    intro e
    rw [show j = i from congrArg Ref.index e] at hj
    exact hi hj
  have after := bare_of_find? found
  rw [← t.bare_detach i] at after
  obtain ⟨kept, hkept, _⟩ := bare_eq_some_iff.mp after
  have still : table.find? (t.refAt j) = some kept :=
    (spec.find? _).trans ((if_neg hne).trans hkept)
  have there : table.find? (table.refAt j) = some kept := by
    rw [find?_refAt]
    exact (find?_eq_some.mp still).2
  exact eq_of_index_eq still there rfl

end Table

namespace Machine

open Act

variable {m : Machine} {w : Workspace}

theorem ends_sweepRefs (refs : List Ref) (w : Workspace) (sound : w.context.Sound)
    (live : w.context.table.live = refs) :
    (sweepRefs refs).Ends w fun a cx => (∃ u, a = .ok u) ∧ ∃ ds, Path w.context ds cx ∧
      (∀ d ∈ ds, ∃ x, d = .sweep x) ∧ ds.length = refs.length := by
  induction refs generalizing w with
  | nil => exact ends_pure ⟨⟨(), rfl⟩, [], .refl _, by simp, rfl⟩
  | cons r rest ih =>
    obtain ⟨record, found, _⟩ := sound.find?_of_live (r := r) (by rw [live]; simp)
    obtain ⟨detached, hdetached, _⟩ := Table.bare_eq_some_iff.mp
      ((w.context.table.bare_detach r.index r).trans (Table.bare_of_find? found))
    obtain ⟨table, removed⟩ := Table.remove_eq_ok hdetached
    have move := @Move.sweep w.context r rest detached table live removed
    obtain ⟨l, listed, _⟩ := sound.listed
    -- what is left to do once the report is written
    have sweep : ∀ v : Workspace, v.context = w.context → Ends (do
        modifyTable (·.detach r.index)
        let _ ← unearth r
        modifyCounters fun c => { c with leaked := c.leaked + 1 }
        sweepRefs rest) v fun a cx => (∃ u, a = .ok u) ∧ ∃ ds, Path w.context ds cx ∧
          (∀ d ∈ ds, ∃ x, d = .sweep x) ∧ ds.length = (r :: rest).length := by
      intro v hv
      apply ends_modifyTable_bind
      apply ends_unearth_bind (by rw [hv]; exact removed)
      apply ends_modifyCounters_bind
      rw [hv]
      refine (ih _ (move.sound sound) (listed.live_remove sound.vacant live removed)).mono ?_
      rintro a cx ⟨ok, ds, path, sweeps, length⟩
      refine ⟨ok, _, .move move path, ?_, congrArg (· + 1) length⟩
      intro d hd
      rcases List.mem_cons.mp hd with rfl | hd
      · exact ⟨_, rfl⟩
      · exact sweeps d hd
    unfold sweepRefs
    apply ends_context_bind
    split
    · apply ends_header_bind
      · intro absent
        rw [found] at absent
        cases absent
      · intro record' _
        apply ends_notify_bind
        exact sweep _ rfl
    · exact sweep w rfl

theorem ends_sweep (sound : m.context.Sound) :
    sweep.Ends m.workspace fun a cx => (∃ u, a = .ok u) ∧ ∃ ds, Path m.context ds cx ∧
      (∀ d ∈ ds, ∃ x, d = .sweep x) ∧ ds.length = m.context.table.live.length := by
  unfold sweep
  apply ends_context_bind
  refine Ends.bind (ends_sweepRefs _ m.workspace sound rfl) ?_ ?_
  · rintro e cx ⟨⟨u, h⟩, _⟩
    cases h
  · rintro _ v ⟨_, swept⟩
    apply ends_context_bind
    exact ends_notify ⟨⟨(), rfl⟩, swept⟩

theorem act_cases {α : Type} {x : Act α} {onError : Machine → Error → Machine}
    {onValue : Machine → α → Machine} {P : Except Error α → Context → Prop} {Q : Machine → Prop}
    (h : x.Ends m.workspace P)
    (failed : ∀ e w, x m.workspace = .error e w → P (.error e) w.context →
      Q (onError (m.settle w) e))
    (passed : ∀ a w, x m.workspace = .ok a w → P (.ok a) w.context →
      Q (onValue (m.settle w) a)) : Q (m.act x onError onValue) := by
  unfold act
  unfold Ends at h
  cases hx : x m.workspace with
  | ok a w =>
    rw [hx] at h
    exact passed a w hx h
  | error e w =>
    rw [hx] at h
    exact failed e w hx h

theorem context_fail (m : Machine) (reply : Reply) (e : Error) :
    (m.fail reply e).context = m.context := by
  unfold fail
  split <;> rfl

theorem agenda_fail (m : Machine) (reply : Reply) (e : Error) :
    (m.fail reply e).agenda = m.agenda := by
  unfold fail
  split <;> rfl

/-- The machine `m'` is what becomes of `m` by carrying out a task that has left the agenda. -/
def Turned (m : Machine) (t : Task) (m' : Machine) : Prop :=
  ∃ ds new, Turn m.context (m.memory 0) m.bindings t ds m'.context new m'.fault ∧
    m'.agenda = new ++ m.agenda

theorem turned_of_running {m' : Machine} {t : Task} {ds : List Deed} {new : List Task}
    (running : m.fault = none)
    (turn : Turn m.context (m.memory 0) m.bindings t ds m'.context new none)
    (fault : m'.fault = m.fault) (agenda : m'.agenda = new ++ m.agenda) : m.Turned t m' := by
  refine ⟨ds, new, ?_, agenda⟩
  rw [fault, running]
  exact turn

theorem turned_perform (m : Machine) (site : Site) (c : Command) (sound : m.context.Sound)
    (running : m.fault = none) : m.Turned (.perform site c) (m.perform site c) := by
  cases c with
  | ask q policy bind =>
    unfold perform
    dsimp only
    split
    · exact ⟨[], [], .asked, rfl⟩
    · split
      · exact ⟨[], [], .asked, rfl⟩
      · refine ⟨[], [], ?_, agenda_fail _ _ _⟩
        rw [context_fail]
        exact .asked
  | update u policy bind =>
    unfold perform
    dsimp only
    split
    · rename_i f read
      exact ⟨[], [], .unbound read, rfl⟩
    · rename_i c read
      apply act_cases (ends_change c m.workspace sound)
      · rintro e w ran ⟨ds, path, failed⟩
        refine ⟨ds, [], ?_, agenda_fail _ _ _⟩
        rw [context_fail]
        exact .refused read ran path failed
      · rintro effect w ran ⟨ds, path, completed⟩
        exact turned_of_running running (.changed read ran path completed) rfl rfl
  | popScope policy =>
    unfold perform popScope
    dsimp only
    split
    · rename_i root
      refine ⟨[], [], ?_, agenda_fail _ _ _⟩
      rw [context_fail]
      exact .outermost root
    · rename_i deep
      exact turned_of_running running (.popping deep) rfl rfl
  | setHook target name script =>
    unfold perform
    dsimp only
    split
    · exact ⟨[], [], .unhooked, rfl⟩
    · rename_i r _
      apply act_cases (P := Either
        (fun _ cx => ∃ record, m.context.table.find? r = some record ∧ record.header.hook = none ∧
          cx = { m.context with
            table := m.context.table.modifyAt r.index (Record.setHook (.script name script)) })
        fun cx => cx = m.context)
        (ends_installHook (fun _ _ => rfl) fun record found free => ⟨record, found, free, rfl⟩)
      · intro e w _ hw
        replace hw : (m.settle w).context = m.context := hw
        refine ⟨[], [], ?_, rfl⟩
        show Turn _ _ _ _ _ (m.settle w).context _ _
        rw [hw]
        exact .unhooked
      · rintro _ w _ ⟨record, found, free, hw⟩
        have turn : Turn m.context (m.memory 0) m.bindings
            (.perform site (.setHook target name script))
            [.hook r (.script name script)] w.context [] none := by
          rw [hw]
          exact .hooked found free
        exact turned_of_running running turn rfl rfl
  | block body =>
    cases site with
    | program => exact turned_of_running running .opened rfl rfl
    | hook name => exact turned_of_running running .opened rfl rfl

theorem context_afterExit (m : Machine) (after : AfterExit) (result : Except Error Unit) :
    (m.afterExit after result).context = m.context := by
  cases result with
  | ok u =>
    cases after with
    | answer reply => rfl
    | blockEnd site id => cases site <;> rfl
    | unwind => rfl
  | error e =>
    cases after with
    | answer reply => exact context_fail m reply e
    | blockEnd site id => rfl
    | unwind => rfl

theorem agenda_afterExit_ok (m : Machine) (after : AfterExit) (u : Unit) :
    (m.afterExit after (.ok u)).agenda =
      (if after = .unwind then [.unwind] else []) ++ m.agenda := by
  cases after with
  | answer reply => rfl
  | blockEnd site id => cases site <;> rfl
  | unwind => rfl

theorem fault_afterExit_ok (m : Machine) (after : AfterExit) (u : Unit) :
    (m.afterExit after (.ok u)).fault = m.fault := by
  cases after with
  | answer reply => rfl
  | blockEnd site id => cases site <;> rfl
  | unwind => rfl

theorem agenda_afterExit_error (m : Machine) (after : AfterExit) (e : Error) :
    (m.afterExit after (.error e)).agenda = m.agenda := by
  cases after with
  | answer reply => exact agenda_fail m reply e
  | blockEnd site id => rfl
  | unwind => rfl

theorem ends_unearthNext_move (sound : m.context.Sound) :
    unearthNext.Ends m.workspace (Either
      (fun next cx => next.elim (cx = m.context ∧ m.context.scopes.active.queue = []) fun d =>
        Move m.context (.drain d) cx) fun _ => False) :=
  ends_unearthNext sound (fun empty => ⟨rfl, empty⟩)
    fun _ _ _ _ queue removed => .drain queue removed

theorem turned_exitScope (m : Machine) (scope : ScopeId) (drained : Nat) (after : AfterExit)
    (sound : m.context.Sound) (running : m.fault = none) :
    m.Turned (.exitScope scope drained after) (m.exitScope scope drained after) := by
  unfold exitScope
  apply act_cases (ends_unearthNext_move sound)
  · intro e w _ impossible
    exact impossible.elim
  · intro next w ran h
    cases next with
    | some d => exact turned_of_running running (.exiting ran h) rfl rfl
    | none =>
      obtain ⟨hw, empty⟩ := h
      replace hw : (m.settle w).context = m.context := hw
      apply act_cases (m := m.settle w) (P := Either (fun _ cx => Move m.context .leave cx)
        fun cx => cx = m.context ∧ m.context.scopes.outer = [])
      · unfold workspace
        rw [hw]
        exact ends_exitScope (fun e root => ⟨rfl, root⟩) fun level scopes popped =>
          .leave empty popped
      · rintro e v _ ⟨hv, root⟩
        refine ⟨[], [], ?_, agenda_afterExit_error _ after e⟩
        rw [context_afterExit]
        show Turn _ _ _ _ _ v.context _ _
        rw [hv]
        exact .bottom empty root
      · intro u v _ move
        have turn : Turn m.context (m.memory 0) m.bindings (.exitScope scope drained after) [.leave]
            (((m.settle w).settle v).afterExit after (.ok u)).context
            (if after = .unwind then [.unwind] else []) none := by
          rw [context_afterExit]
          exact .left move
        exact turned_of_running running turn (fault_afterExit_ok _ after u)
          (agenda_afterExit_ok _ after u)

theorem turned_leaveBlock (m : Machine) (site : Site) (id : ScopeId) (running : m.fault = none) :
    m.Turned (.leaveBlock site id) (m.leaveBlock site id) := by
  have context : (m.tellAt site .blockClosing).context = m.context := by cases site <;> rfl
  have agenda : (m.tellAt site .blockClosing).agenda = m.agenda := by cases site <;> rfl
  have fault : (m.tellAt site .blockClosing).fault = m.fault := by cases site <;> rfl
  unfold leaveBlock
  dsimp only
  split
  · refine ⟨[], [], ?_, agenda⟩
    show Turn _ _ _ _ _ (m.tellAt site .blockClosing).context _ _
    rw [context]
    exact .mismatched
  · rename_i here
    rw [not_not, context] at here
    split
    · refine ⟨[], [], ?_, agenda⟩
      show Turn _ _ _ _ _ (m.tellAt site .blockClosing).context _ _
      rw [context]
      exact .mismatched
    · rename_i deep
      have turn : Turn m.context (m.memory 0) m.bindings (.leaveBlock site id) []
          (m.tellAt site .blockClosing).context [.exitScope id 0 (.blockEnd site id)] none := by
        rw [context]
        exact .closing here deep
      exact turned_of_running running turn fault (congrArg (_ :: ·) agenda)

theorem turned_execute (m : Machine) (t : Task) (sound : m.context.Sound)
    (running : m.fault = none) :
    m.Turned t (m.execute t) := by
  cases t with
  | perform site c => exact turned_perform m site c sound running
  | runScript owner name payload script => exact turned_of_running running .scripted rfl rfl
  | releaseRefs refs =>
    cases refs with
    | nil => exact turned_of_running running .released rfl rfl
    | cons r rest =>
      unfold execute
      apply act_cases (ends_decrement_heap r m.workspace)
      · rintro e w ran ⟨hw, unheld⟩
        refine ⟨[], [], ?_, rfl⟩
        show Turn _ _ _ _ _ w.context _ _
        rw [hw]
        exact .stuck ran unheld
      · rintro doomed w ran ⟨d, move, lowers, conduct⟩
        exact turned_of_running running (.releasing ran move lowers conduct) rfl rfl
  | bury r scope hooked => exact turned_of_running running .buried rfl rfl
  | finish reply closing answer => exact turned_of_running running .finished rfl rfl
  | exitScope scope drained after => exact turned_exitScope m scope drained after sound running
  | leaveBlock site id => exact turned_leaveBlock m site id running
  | unwind =>
    unfold execute
    dsimp only
    split
    · rename_i root
      exact turned_of_running running (.unwound root) rfl rfl
    · rename_i deep
      exact turned_of_running running (.unwinding deep) rfl rfl
  | drain =>
    unfold execute
    apply act_cases (ends_unearthNext_move sound)
    · intro e w _ impossible
      exact impossible.elim
    · intro next w ran h
      cases next with
      | some d => exact turned_of_running running (.draining ran h) rfl rfl
      | none =>
        obtain ⟨hw, empty⟩ := h
        have turn : Turn m.context (m.memory 0) m.bindings .drain [] w.context [] none := by
          rw [hw]
          exact .drained empty
        exact turned_of_running running turn rfl rfl
  | sweep =>
    unfold execute
    apply act_cases (ends_sweep sound)
    · rintro e w _ ⟨⟨u, h⟩, _⟩
      cases h
    · rintro _ w _ ⟨_, ds, path, sweeps, all⟩
      exact turned_of_running running (.swept path sweeps all) rfl rfl

theorem step_eq {t : Task} {rest : List Task} (running : m.fault = none)
    (next : m.agenda = t :: rest) : m.step = { m with agenda := rest }.execute t := by
  unfold step
  rw [running, next]

/-- Every step of a machine that has something to do is a turn. -/
theorem turn_step {t : Task} {rest : List Task} (sound : m.context.Sound) (running : m.fault = none)
    (next : m.agenda = t :: rest) :
    ∃ ds new, Turn m.context (m.memory 0) m.bindings t ds m.step.context new m.step.fault ∧
      m.step.agenda = new ++ rest := by
  rw [step_eq running next]
  exact turned_execute { m with agenda := rest } t sound running

end Machine

end ScopedHeap
