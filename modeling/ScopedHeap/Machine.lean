import ScopedHeap.Answer
import ScopedHeap.Bindings

/-!
# Running programs

A machine has a context, the variables of the program, and an agenda of tasks, the next one first.
Destroying a record runs its hook, which may do anything a program does, the destruction of further
records included. All of that becomes tasks in front of the agenda, so that a step is a simple
change and the work still to be done is in plain sight at every moment.

The hooks of a client are scripts, lists of commands. A script is handed the payload of its record,
which the trace shows, but it can neither read that payload nor move it elsewhere: commands name
records, and the record is gone by then. What holds of all scripts is therefore not said of hooks
that look at what they are handed or keep it.

The trace tells what happened, latest first.
-/
namespace ScopedHeap

/-- Where a command stands: in the program itself, or in a script that is run by a hook. -/
inductive Site where
  | program
  | hook (name : String)
  deriving DecidableEq, Repr, Inhabited

def Site.inner : Site → Site
  | program => program
  | hook _ => hook "scope"

structure Reply where
  site : Site
  policy : Policy
  bind : Option String := none
  deriving DecidableEq, Repr, Inhabited

inductive AfterExit where
  | answer (reply : Reply)
  /-- The block whose scope it was is over. -/
  | blockEnd (site : Site) (id : ScopeId)
  /-- Teardown goes on to the next open scope. -/
  | unwind
  deriving DecidableEq, Repr, Inhabited

inductive Task where
  | perform (site : Site) (c : Command)
  /-- The script of a record that has been taken out of the table. -/
  | runScript (owner : Ref) (name : String) (payload : Payload) (script : List Command)
  /-- References still to be given up by a container that has been taken out of the table. -/
  | releaseRefs (refs : List Ref)
  | bury (r : Ref) (scope : ScopeId) (hooked : Bool)
  | finish (reply : Reply) (closing : List Notice) (answer : Answer)
  /-- Drains the queue of the active level, then takes that level off. -/
  | exitScope (scope : ScopeId) (drained : Nat) (after : AfterExit)
  | leaveBlock (site : Site) (id : ScopeId)
  /-- Exits all scopes but the root. -/
  | unwind
  /-- Destroys what waits on the active level. -/
  | drain
  /-- Gives up every record that is still alive. -/
  | sweep
  deriving Inhabited

inductive Event where
  | notice (n : Notice)
  | hookStarted (owner : Ref) (name : String) (payload : Payload)
  | hookAnswered (name : String) (outcome : Outcome)
  /-- A command of the program is over. -/
  | answered (outcome : Outcome) (after : Context)
  | blockOpened (id : ScopeId)
  | blockClosing
  | blockClosed (after : Context)
  deriving Inhabited

structure Machine where
  context : Context
  memory : Memory
  bindings : Bindings
  agenda : List Task
  trace : List Event
  /-- Set when the program has been stopped. -/
  fault : Option Fault
  deriving Inhabited

/-- The tasks that are left for a record after it has been taken out of the table. -/
def Doomed.tasks (d : Doomed) : List Task :=
  let header := d.record.header
  match header.hook with
  | none => [.bury d.ref header.creationScope false]
  | some (.releaseSlots kind) =>
    if d.record.payload.kind = kind then
      [.releaseRefs d.record.payload.refs, .bury d.ref header.creationScope true]
    else
      [.bury d.ref header.creationScope true]
  | some (.script name commands) =>
    [.runScript d.ref name d.record.payload commands, .bury d.ref header.creationScope true]

namespace Machine

def start (settings : Settings) (memory : Memory) (program : List Command) : Machine where
  context := .new settings
  memory := memory
  bindings := {}
  agenda := program.map (.perform .program)
  trace := []
  fault := none

def tell (m : Machine) (e : Event) : Machine := { m with trace := e :: m.trace }

def tellAt (m : Machine) (site : Site) (e : Event) : Machine :=
  match site with
  | .program => m.tell e
  | .hook _ => m

def schedule (m : Machine) (tasks : List Task) : Machine := { m with agenda := tasks ++ m.agenda }

def stop (m : Machine) (f : Fault) : Machine := { m with fault := some f }

def abort (m : Machine) (e : Error) : Machine := (m.tell (.notice (.fatal e))).stop (.error e)

/-- Hands an answer over: binds the name that waits for it and tells the outcome. -/
def deliver (m : Machine) (reply : Reply) (outcome : Outcome) : Machine :=
  let bindings :=
    match reply.bind, outcome with
    | some name, .ok answer => answer.bound?.elim m.bindings (m.bindings.bind name)
    | _, _ => m.bindings
  let event :=
    match reply.site with
    | .program => Event.answered outcome m.context
    | .hook name => .hookAnswered name outcome
  { m with bindings }.tell event

/-- A failed command answers with its error, or ends the program. -/
def fail (m : Machine) (reply : Reply) (e : Error) : Machine :=
  match reply.policy with
  | .checked => m.deliver reply (.error e)
  | .strict => m.abort e

abbrev workspace (m : Machine) : Workspace := ⟨m.context, [], m.memory 0⟩

def settle (m : Machine) (w : Workspace) : Machine :=
  { m with
    context := w.context
    memory := m.memory.rest
    trace := w.journal.map Event.notice ++ m.trace }

def act {α : Type} (m : Machine) (x : Act α) (onError : Machine → Error → Machine)
    (onValue : Machine → α → Machine) : Machine :=
  match x m.workspace with
  | .ok a w => onValue (m.settle w) a
  | .error e w => onError (m.settle w) e

def popScope (m : Machine) (reply : Reply) : Machine :=
  let scope := m.context.current
  if scope = rootScope then
    m.fail reply .scopeUnderflow
  else
    m.schedule [.exitScope scope 0 (.answer reply)]

def openBlock (m : Machine) (site : Site) (body : List Command) : Machine :=
  m.act Act.pushScope abort fun m id =>
    (m.tellAt site (.blockOpened id)).schedule
      (body.map (.perform site.inner) ++ [.leaveBlock site id])

/-- A block may be left only from the scope that it entered. -/
def leaveBlock (m : Machine) (site : Site) (id : ScopeId) : Machine :=
  let m := m.tellAt site .blockClosing
  if m.context.current ≠ id then
    m.abort (.scopeMismatch id m.context.current)
  else if id = rootScope then
    m.abort .scopeUnderflow
  else
    m.schedule [.exitScope id 0 (.blockEnd site id)]

def closeBlock (m : Machine) (site : Site) (id : ScopeId) : Machine :=
  match site with
  | .program => m.tell (.blockClosed m.context)
  | .hook name => m.tell (.hookAnswered name (.ok (.block id)))

def perform (m : Machine) (site : Site) : Command → Machine
  | .ask q policy bind =>
    let reply : Reply := ⟨site, policy, bind⟩
    match m.bindings.query q with
    | .error f => m.stop f
    | .ok question =>
      match m.context.answer question with
      | .ok answer => m.deliver reply (.ok answer)
      | .error e => m.fail reply e
  | .update u policy bind =>
    let reply : Reply := ⟨site, policy, bind⟩
    match m.bindings.update u with
    | .error f => m.stop f
    | .ok change =>
      m.act (Act.change change) (·.fail reply) fun m effect =>
        m.schedule (effect.doomed.elim [] Doomed.tasks ++
          [.finish reply effect.closing effect.answer])
  | .popScope policy => m.popScope ⟨site, policy, none⟩
  | .setHook target name script =>
    match m.bindings.record target with
    | .error f => m.stop f
    | .ok r =>
      m.act (Act.installHook r (.script name script)) abort fun m _ =>
        m.deliver ⟨site, .strict, none⟩ (.ok .done)
  | .block body => m.openBlock site body

def afterExit (m : Machine) (after : AfterExit) : Except Error Unit → Machine
  | .ok () =>
    match after with
    | .answer reply => m.deliver reply (.ok .done)
    | .blockEnd site id => m.closeBlock site id
    | .unwind => m.schedule [.unwind]
  | .error e =>
    match after with
    | .answer reply => m.fail reply e
    | .blockEnd _ _ | .unwind => m.abort e

/-- Destroys the next record that waits on the active level, or leaves the scope if none does. The
active level is looked up anew each time, since hooks may enter and leave scopes. -/
def exitScope (m : Machine) (scope : ScopeId) (drained : Nat) (after : AfterExit) : Machine :=
  m.act Act.unearthNext (fun m e => m.afterExit after (.error e)) fun m next =>
    match next with
    | some doomed => m.schedule (doomed.tasks ++ [.exitScope scope (drained + 1) after])
    | none =>
      m.act (Act.exitScope scope drained) (fun m e => m.afterExit after (.error e)) fun m _ =>
        m.afterExit after (.ok ())

/-- Gives up live records without running their hooks. -/
def sweepRefs : List Ref → Act Unit
  | [] => return ()
  | r :: rest => do
    if (← Act.context).settings.leakReport then
      let header ← Act.read (·.header r)
      Act.notify (.leaked r header.creationScope header.refcount)
    Act.modifyTable (·.detach r.index)
    let _ ← Act.unearth r
    Act.modifyCounters fun c => { c with leaked := c.leaked + 1 }
    sweepRefs rest

def sweep : Act Unit := do
  sweepRefs (← Act.context).table.live
  let stats := (← Act.context).stats
  Act.notify (.tornDown stats.allocated stats.destroyed stats.leaked)

def execute (m : Machine) : Task → Machine
  | .perform site c => m.perform site c
  | .runScript owner name payload script =>
    (m.tell (.hookStarted owner name payload)).schedule (script.map (.perform (.hook name)))
  | .releaseRefs [] => m
  | .releaseRefs (r :: rest) =>
    m.act (Act.decrement .heap false r) abort fun m doomed =>
      m.schedule (doomed.elim [] Doomed.tasks ++ [.releaseRefs rest])
  | .bury r scope hooked => m.act (Act.bury r scope hooked) abort fun m _ => m
  | .finish reply closing answer =>
    { m with trace := closing.reverse.map Event.notice ++ m.trace }.deliver reply (.ok answer)
  | .exitScope scope drained after => m.exitScope scope drained after
  | .leaveBlock site id => m.leaveBlock site id
  | .unwind =>
    let scope := m.context.current
    if scope = rootScope then m else m.schedule [.exitScope scope 0 .unwind]
  | .drain =>
    m.act Act.unearthNext abort fun m next =>
      match next with
      | some doomed => m.schedule (doomed.tasks ++ [.drain])
      | none => m
  | .sweep => m.act sweep abort fun m _ => m

/-- Takes the next task off the agenda and carries it out. A machine that has stopped, or has
nothing left to do, stays as it is. -/
def step (m : Machine) : Machine :=
  match m.fault, m.agenda with
  | none, task :: rest => { m with agenda := rest }.execute task
  | _, _ => m

def steps (m : Machine) : Nat → Machine
  | 0 => m
  | n + 1 => m.step.steps n

def isFinished (m : Machine) : Bool := m.fault.isSome || m.agenda.isEmpty

end Machine

end ScopedHeap
