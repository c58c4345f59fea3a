import ScopedHeap.Run

/-!
# Reports

The trace of a run, put in order: one step for each command of the program, the steps of a block
inside the step of that block. What hooks did and what was noted goes to the innermost step that
finishes next.
-/
namespace ScopedHeap

inductive HookEntry where
  | started (name : String) (payload : Payload)
  | answered (name : String) (outcome : Outcome)
  deriving Inhabited

mutual

inductive StepResult where
  | outcome (o : Outcome)
  /-- The program was stopped by this command. -/
  | stopped (f : Fault)
  /-- A block; `exit` is set when leaving the block is what stopped the program. -/
  | block (id : ScopeId) (steps : List Step) (exit : Option Fault)

inductive Step where
  /-- The context afterwards is missing if the program was stopped. -/
  | mk (result : StepResult) (after : Option Context) (hooks : List HookEntry) (log : List Notice)

end

namespace Step

def result : Step → StepResult
  | mk result .. => result

def after : Step → Option Context
  | mk _ after .. => after

def hooks : Step → List HookEntry
  | mk _ _ hooks _ => hooks

def log : Step → List Notice
  | mk _ _ _ log => log

end Step

structure OpenBlock where
  id : ScopeId
  steps : List Step := []
  closing : Bool := false

/-- A report in the making. All lists have the latest entry first. -/
structure Draft where
  steps : List Step := []
  /-- The innermost block first. -/
  blocks : List OpenBlock := []
  hooks : List HookEntry := []
  log : List Notice := []

namespace Draft

def addStep (d : Draft) (result : StepResult) (after : Option Context) : Draft :=
  let step := Step.mk result after d.hooks.reverse d.log.reverse
  match d.blocks with
  | [] => { d with steps := step :: d.steps, hooks := [], log := [] }
  | b :: outer =>
    { d with blocks := { b with steps := step :: b.steps } :: outer, hooks := [], log := [] }

def closeBlock (d : Draft) (exit : Option Fault) (after : Option Context) : Draft :=
  match d.blocks with
  | [] => d
  | b :: outer => { d with blocks := outer }.addStep (.block b.id b.steps.reverse exit) after

def add (d : Draft) : Event → Draft
  | .notice n => { d with log := n :: d.log }
  | .hookStarted _ name payload => { d with hooks := .started name payload :: d.hooks }
  | .hookAnswered name outcome => { d with hooks := .answered name outcome :: d.hooks }
  | .answered outcome after => d.addStep (.outcome outcome) (some after)
  | .blockOpened id => { d with blocks := { id } :: d.blocks }
  | .blockClosing =>
    match d.blocks with
    | [] => d
    | b :: outer => { d with blocks := { b with closing := true } :: outer }
  | .blockClosed after => d.closeBlock none (some after)

def ofTrace (trace : List Event) : Draft := trace.foldr (fun e d => d.add e) {}

def closeAll (d : Draft) : Draft := d.blocks.foldl (fun d _ => d.closeBlock none none) d

/-- The last step of a program that was stopped: the block that was being left, or else the command
that was being carried out. -/
def stop (d : Draft) (f : Fault) : Draft :=
  let stopped :=
    if d.blocks.head?.any OpenBlock.closing then
      d.closeBlock (some f) none
    else
      d.addStep (.stopped f) none
  stopped.closeAll

end Draft

structure Ending where
  result : Except Fault Stats
  hooks : List HookEntry
  log : List Notice

structure Report where
  steps : List Step
  halted : Bool
  ending : Option Ending

structure Program where
  settings : Settings
  memory : Memory
  commands : List Command
  tearDown : Bool

namespace Machine

def notices (m : Machine) : List Notice :=
  m.trace.reverse.filterMap fun
    | .notice n => some n
    | _ => none

def reportSteps (m : Machine) : List Step :=
  let draft := Draft.ofTrace m.trace
  (m.fault.elim draft draft.stop).steps.reverse

def ending (m : Machine) : Ending :=
  let draft := Draft.ofTrace m.trace
  { result := m.fault.elim (.ok m.context.stats) .error
    hooks := draft.hooks.reverse
    log := draft.log.reverse }

end Machine

namespace Program

def machine (p : Program) : Machine := (Machine.start p.settings p.memory p.commands).run

/-- The machine after teardown, if that is asked for and the program was not stopped. -/
def ended? (p : Program) (m : Machine) : Option Machine :=
  if p.tearDown && m.fault.isNone then some m.tearDown else none

def report (p : Program) : Report :=
  let m := p.machine
  { steps := m.reportSteps, halted := m.fault.isSome, ending := (p.ended? m).map Machine.ending }

def notices (p : Program) : List Notice :=
  let m := p.machine
  m.notices ++ (p.ended? m).elim [] Machine.notices

end Program

end ScopedHeap
