import ScopedHeap.Machine

/-!
# Weight, and running to the end

Every task, every record in the table, every open level and every queued record has a weight. A
record carries what its hook and its slots can still set off; a command carries what it may create.
Each step of a machine uses up some of the total, so the weight of a machine bounds the number of
steps that it can take.
-/
namespace ScopedHeap

/-- Slots that an update may add to the table on top of a fixed few. -/
def Update.slotCount {ρ ν σ : Type} : Update ρ ν σ → Nat
  | .newList _ slots | .newSet _ slots => slots.length
  | .newDict _ _ keys values => keys.length + values.length
  | _ => 0

mutual

def Command.weight : Command → Nat
  | .ask .. => 1
  | .update u _ _ => 6 + 2 * u.slotCount
  | .popScope _ => 2
  | .setHook _ _ script => 1 + Command.listWeight script
  | .block body => 5 + Command.listWeight body

def Command.listWeight : List Command → Nat
  | [] => 0
  | c :: rest => c.weight + Command.listWeight rest

end

def Hook.weight : Hook → Nat
  | .releaseSlots _ => 0
  | .script _ commands => Command.listWeight commands

def Record.weight (r : Record) : Nat :=
  2 + 2 * r.payload.slots.length + r.header.hook.elim 0 Hook.weight

def Cell.weight (c : Cell) : Nat := c.record.elim 0 Record.weight

def Table.weight (t : Table) : Nat := total Cell.weight t.cells.toList

def ScopeStack.weight (s : ScopeStack) : Nat := s.pending + 2 * s.depth

def Context.weight (cx : Context) : Nat := cx.table.weight + cx.scopes.weight

def Task.weight : Task → Nat
  | .perform _ c => c.weight
  | .runScript _ _ _ script => 1 + Command.listWeight script
  | .releaseRefs refs => 1 + 2 * refs.length
  | .bury .. => 1
  | .finish .. => 1
  | .exitScope .. => 1
  | .leaveBlock .. => 2
  | .unwind => 2
  | .drain => 1
  | .sweep => 1

namespace Machine

def weight (m : Machine) : Nat := m.context.weight + total Task.weight m.agenda

def run (m : Machine) : Machine := m.steps m.weight

/-- The machine that is about to shut its context down: to leave the open scopes, drain the root,
and give up what is left. Only what happens from here on is traced. -/
def closing (m : Machine) : Machine :=
  let depth := m.context.scopes.depth
  let opening := if 1 < depth then [Event.notice (.scopesOpen depth)] else []
  let unwinding := if 1 < depth then [Task.unwind] else []
  { m with agenda := unwinding ++ [Task.drain, Task.sweep], trace := opening }

def tearDown (m : Machine) : Machine := m.closing.run

end Machine

end ScopedHeap
