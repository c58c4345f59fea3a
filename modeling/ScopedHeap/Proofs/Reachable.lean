import ScopedHeap.Run
import ScopedHeap.Proofs.Turn

/-!
# Reachable machines

A machine is reachable if some program leads to it, step by step, from a new context. That includes
the states in the middle of an operation while hooks run, and those of a teardown. The contexts of
all of them are sound.
-/
namespace ScopedHeap

open Context

namespace Machine

variable {m : Machine}

/-- The program goes on, and all that is left to do is its own: no operation is under way. -/
structure Idle (m : Machine) : Prop where
  running : m.fault = none
  agenda : ∀ t ∈ m.agenda, (∃ c, t = .perform .program c) ∨ ∃ id, t = .leaveBlock .program id

inductive Reachable : Machine → Prop
  | start (settings : Settings) (memory : Memory) (program : List Command) :
    Reachable (.start settings memory program)
  | step {m : Machine} : Reachable m → Reachable m.step
  | closing {m : Machine} : Reachable m → m.Idle → Reachable m.closing

theorem Reachable.steps (h : m.Reachable) (n : Nat) : (m.steps n).Reachable := by
  induction n generalizing m with
  | zero => exact h
  | succ n ih => exact ih h.step

theorem Reachable.tearDown (h : m.Reachable) (idle : m.Idle) : m.tearDown.Reachable :=
  (h.closing idle).steps _

/-- A machine that has stopped, or has nothing left to do, stays as it is. -/
theorem step_cases (m : Machine) :
    m.step = m ∨ m.fault = none ∧ ∃ t rest, m.agenda = t :: rest := by
  unfold step
  split
  · rename_i t rest running next
    exact Or.inr ⟨running, t, rest, next⟩
  · exact Or.inl rfl

end Machine

theorem Turn.path {cx cx' : Context} {grants : Grants} {b : Bindings} {t : Task} {ds : List Deed}
    {new : List Task} {fault : Option Fault} (turn : Turn cx grants b t ds cx' new fault) :
    Path cx ds cx' := by
  cases turn with
  | asked | unbound | outermost | popping | unhooked | scripted | released | stuck | finished
  | bottom | closing | mismatched | unwound | unwinding | drained => exact .refl _
  | changed _ _ path | refused _ _ path | swept path => exact path
  | hooked found free => exact .single (.hook found free)
  | opened => exact .single .enter
  | buried => exact .single .bury
  | releasing _ move | exiting _ move | left move | draining _ move => exact .single move

namespace Machine

variable {m : Machine}

theorem sound_step (h : m.context.Sound) : m.step.context.Sound := by
  rcases m.step_cases with same | ⟨running, t, rest, next⟩
  · rw [same]
    exact h
  · obtain ⟨ds, new, turn, _⟩ := turn_step h running next
    exact turn.path.sound h

theorem Reachable.sound (h : m.Reachable) : m.context.Sound := by
  induction h with
  | start settings memory program => exact sound_new settings
  | step _ ih => exact sound_step ih
  | closing _ _ ih => exact ih

end Machine

end ScopedHeap
