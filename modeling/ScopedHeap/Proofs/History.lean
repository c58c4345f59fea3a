import ScopedHeap.Proofs.Destruction

/-!
# Histories

A history is one whole run of a program: the machine at every moment, and the moment at which its
context is shut down, if it is. What happens from one moment to the next is a turn, the begin of the
teardown, or nothing (`History.Moment`).

A cell counts its generations, and begins a new one whenever its record is taken out
(`History.generationAt_eq`). As long as it has been vacated less often than generations can be told
apart, a reference to a record that has been taken out finds nothing any more
(`History.Unrepeated.absent`).
-/
namespace ScopedHeap

open Context

def Deed.vacates (d : Deed) (i : Nat) : Bool := d.removed?.any (·.ref.index = i)

namespace Context

variable {cx cx' : Context} {d : Deed} {ds : List Deed}

theorem Move.generationAt_eq (move : Move cx d cx') (i : Nat) :
    cx'.table.generationAt i =
      if d.vacates i then (cx.table.generationAt i + 1) % wordBound
      else cx.table.generationAt i := by
  cases move with
  | raiseStatic | lowerStatic | enter | leave | bury => rfl
  | raise | lower | keep | hook | store => exact Table.generationAt_modifyAt _ _ _ _
  | defer => simp [Deed.vacates, Deed.removed?]
  | destroy _ _ _ _ removed =>
    rw [Table.generationAt_remove removed]
    simp [Deed.vacates, Deed.removed?]
  | drain _ removed =>
    rw [Table.generationAt_remove removed]
    simp [Deed.vacates, Deed.removed?]
  | sweep _ removed =>
    rw [Table.generationAt_remove removed]
    simp [Deed.vacates, Deed.removed?]
  | allocate inserted =>
    rw [Table.generationAt_attach, Table.generationAt_insert inserted]
    rfl
  | allocateContainer inserted =>
    rw [Table.generationAt_modifyAt, Table.generationAt_attach, Table.generationAt_insert inserted]
    rfl
  | allocateStatic inserted => exact Table.generationAt_insert inserted i

/-- A cell has come as many generations further as it has been vacated. -/
theorem Path.generationAt_eq (path : Path cx ds cx') {i : Nat}
    (small : cx.table.generationAt i < wordBound) :
    cx'.table.generationAt i = (cx.table.generationAt i + ds.countP (·.vacates i)) % wordBound := by
  induction path with
  | refl => exact (Nat.mod_eq_of_lt small).symm
  | @move a b c d ds first _ ih =>
    have next := first.generationAt_eq i
    by_cases vacated : d.vacates i = true
    · rw [if_pos vacated] at next
      have small' : b.table.generationAt i < wordBound := by
        rw [next]
        exact Nat.mod_lt _ (by decide)
      rw [ih small', next, Nat.mod_add_mod, List.countP_cons, if_pos vacated, Nat.add_assoc,
        Nat.add_comm 1]
    · rw [if_neg vacated] at next
      rw [ih (next ▸ small), next, List.countP_cons, if_neg vacated, Nat.add_zero]

theorem Path.generationAt_of_steady (path : Path cx ds cx') (stays : ∀ d ∈ ds, d.removed? = none)
    (i : Nat) : cx'.table.generationAt i = cx.table.generationAt i := by
  induction path with
  | refl => rfl
  | @move a b c d ds first _ ih =>
    have none : d.vacates i = false := by
      rw [Deed.vacates, stays d List.mem_cons_self]
      rfl
    rw [ih fun d hd => stays d (List.mem_cons_of_mem _ hd), first.generationAt_eq, none]
    rfl

/-- A sweep takes out the live records one after the other, and touches no scope. -/
theorem Path.swept (path : Path cx ds cx') (sound : cx.Sound)
    (sweeps : ∀ d ∈ ds, ∃ x, d = .sweep x) :
    cx.table.live = (ds.filterMap Deed.removed?).map Doomed.ref ++ cx'.table.live ∧
      (ds.filterMap Deed.removed?).length = ds.length ∧ cx'.scopes = cx.scopes ∧
      cx'.counters.leaked = cx.counters.leaked + ds.length := by
  induction path with
  | refl => exact ⟨rfl, rfl, rfl, rfl⟩
  | @move a b c d ds first rest ih =>
    obtain ⟨x, rfl⟩ := sweeps d List.mem_cons_self
    cases first with
    | @sweep r refs gone table live removed =>
      obtain ⟨l, listed, _⟩ := sound.listed
      have left : table.live = refs := listed.live_remove sound.vacant live removed
      obtain ⟨others, length, scopes, leaked⟩ := ih (Move.sound sound (.sweep live removed))
        fun d hd => sweeps d (List.mem_cons_of_mem _ hd)
      refine ⟨?_, congrArg (· + 1) length, scopes, ?_⟩
      · rw [live, ← left]
        exact congrArg (r :: ·) others
      · rw [leaked, List.length_cons]
        exact Nat.add_right_comm _ 1 _

/-- A sweep of as many records as there are live ones leaves none. -/
theorem Path.live_of_sweep (path : Path cx ds cx') (sound : cx.Sound)
    (sweeps : ∀ d ∈ ds, ∃ x, d = .sweep x) (all : ds.length = cx.table.live.length) :
    (ds.filterMap Deed.removed?).map Doomed.ref = cx.table.live ∧ cx'.table.live = [] := by
  obtain ⟨live, length, _⟩ := path.swept sound sweeps
  have none : cx'.table.live = [] := by
    apply List.length_eq_zero_iff.mp
    have lengths := congrArg List.length live
    rw [List.length_append, List.length_map, length] at lengths
    omega
  rw [none, List.append_nil] at live
  exact ⟨live.symm, none⟩

end Context

def Task.leaks (cx : Context) : Task → List Ref
  | .sweep => cx.table.live
  | _ => []

theorem Task.leaks_of_ne {t : Task} (keeps : t ≠ .sweep) (cx : Context) : t.leaks cx = [] := by
  cases t with
  | sweep => exact absurd rfl keeps
  | perform | runScript | releaseRefs | bury | finish | exitScope | leaveBlock | unwind
  | drain => rfl

/-- The references of the records that a task takes out of the table. -/
def Task.removals (t : Task) (cx : Context) (grants : Grants) (b : Bindings) : List Ref :=
  t.leaks cx ++ ((t.doomed? cx grants b).map Doomed.ref).toList

theorem Deed.filterMap_removed?_eq_nil {ds : List Deed} (stays : ∀ d ∈ ds, d.removed? = none) :
    ds.filterMap Deed.removed? = [] := List.filterMap_eq_nil_iff.mpr stays

theorem Turn.removals {cx cx' : Context} {grants : Grants} {b : Bindings} {t : Task}
    {ds : List Deed} {new : List Task} {fault : Option Fault}
    (turn : Turn cx grants b t ds cx' new fault) (sound : cx.Sound) :
    (ds.filterMap Deed.removed?).map Doomed.ref = t.removals cx grants b := by
  by_cases sweeps : t = .sweep
  · subst sweeps
    cases turn with
    | swept path sweeps all =>
      rw [(path.live_of_sweep sound sweeps all).1]
      exact (List.append_nil _).symm
  · have takes := turn.takes sweeps
    rw [Task.removals, Task.leaks_of_ne sweeps, List.nil_append]
    cases hd : t.doomed? cx grants b with
    | none =>
      rw [hd] at takes
      rw [Deed.filterMap_removed?_eq_nil takes]
      rfl
    | some d =>
      rw [hd] at takes
      obtain ⟨es, hds, steady⟩ := takes
      have none := Deed.filterMap_removed?_eq_nil fun e he => (steady e he).1
      rcases hds with rfl | rfl
      · rw [List.filterMap_append, none]
        rfl
      · rw [List.filterMap_append, none]
        rfl

theorem Turn.generationAt_of_removed {cx cx' : Context} {grants : Grants} {b : Bindings} {t : Task}
    {ds : List Deed} {new : List Task} {fault : Option Fault}
    (turn : Turn cx grants b t ds cx' new fault) (sound : cx.Sound) {x : Ref}
    (gone : x ∈ t.removals cx grants b) :
    cx.table.generationAt x.index = x.generation := by
  by_cases sweeps : t = .sweep
  · subst sweeps
    obtain ⟨record, found, _⟩ := sound.find?_of_live ((List.append_nil _).subst gone)
    exact Table.generationAt_of_find? found
  · have takes := turn.takes sweeps
    rw [Task.removals, Task.leaks_of_ne sweeps, List.nil_append, Option.mem_toList,
      Option.map_eq_some_iff] at gone
    obtain ⟨d, hd, rfl⟩ := gone
    rw [hd] at takes
    obtain ⟨es, hds, steady⟩ := takes
    obtain ⟨last, hlast, rfl⟩ : ∃ last : Deed, last.removed? = some d ∧ ds = es ++ [last] := by
      rcases hds with rfl | rfl
      · exact ⟨_, rfl, rfl⟩
      · exact ⟨_, rfl, rfl⟩
    obtain ⟨mid, path, rest⟩ := turn.path.split
    rw [← path.generationAt_of_steady fun e he => (steady e he).1]
    cases rest with
    | move move _ =>
      obtain ⟨old, hold, _⟩ := move.bare_of_removed (path.sound sound) hlast
      obtain ⟨record, found, _⟩ := Table.bare_eq_some_iff.mp hold
      exact Table.generationAt_of_find? found

namespace Machine

def leaks (m : Machine) : List Ref :=
  match m.fault, m.agenda with
  | none, t :: _ => t.leaks m.context
  | _, _ => []

theorem doomed?_eq {m : Machine} {t : Task} {rest : List Task} (running : m.fault = none)
    (next : m.agenda = t :: rest) : m.doomed? = t.doomed? m.context (m.memory 0) m.bindings := by
  unfold doomed?
  rw [running, next]

theorem leaks_eq {m : Machine} {t : Task} {rest : List Task} (running : m.fault = none)
    (next : m.agenda = t :: rest) : m.leaks = t.leaks m.context := by
  unfold leaks
  rw [running, next]

theorem step_of_stopped {m : Machine} (h : m.fault ≠ none ∨ m.agenda = []) :
    m.step = m ∧ m.doomed? = none ∧ m.leaks = [] := by
  unfold step doomed? leaks
  rcases h with stopped | idle
  · obtain ⟨f, hf⟩ := Option.ne_none_iff_exists'.mp stopped
    rw [hf]
    exact ⟨rfl, rfl, rfl⟩
  · rw [idle]
    cases m.fault with
    | none => exact ⟨rfl, rfl, rfl⟩
    | some f => exact ⟨rfl, rfl, rfl⟩

/-- The machine after so many steps of a program, the teardown beginning at `closing`. -/
def course (settings : Settings) (memory : Memory) (program : List Command)
    (closing : Option Nat) : Nat → Machine
  | 0 => .start settings memory program
  | n + 1 =>
    if closing = some n then (course settings memory program closing n).closing
    else (course settings memory program closing n).step

end Machine

/-- A run of a program from a new context on, hooks included. Its context may be shut down at a
moment when no operation is under way. -/
structure History where
  settings : Settings
  memory : Memory
  program : List Command
  closing : Option Nat
  idle : ∀ n, closing = some n → (Machine.course settings memory program closing n).Idle

namespace History

variable (h : History)

def state (n : Nat) : Machine := .course h.settings h.memory h.program h.closing n

def record? (n : Nat) (x : Ref) : Option Record := (h.state n).context.table.find? x

/-- The record that is taken out of the table at a moment to be destroyed. -/
def destroyed? (n : Nat) : Option Doomed := if h.closing = some n then none else (h.state n).doomed?

/-- The live records that are given up at a moment. -/
def leaked (n : Nat) : List Ref := if h.closing = some n then [] else (h.state n).leaks

/-- The references of all records that are taken out of the table at a moment. -/
def removed (n : Nat) : List Ref := h.leaked n ++ ((h.destroyed? n).map Doomed.ref).toList

def vacations (i : Nat) : Nat → Nat
  | 0 => 0
  | n + 1 => vacations i n + (h.removed n).countP (·.index = i)

/-- What happens at a moment. -/
inductive Moment (n : Nat) : Prop
  | closing (idle : (h.state n).Idle) (next : h.state (n + 1) = (h.state n).closing)
      (destroyed : h.destroyed? n = none) (leaked : h.leaked n = [])
  | still (stopped : (h.state n).fault ≠ none ∨ (h.state n).agenda = [])
      (next : h.state (n + 1) = h.state n) (destroyed : h.destroyed? n = none)
      (leaked : h.leaked n = [])
  | turn {t : Task} {rest new : List Task} {ds : List Deed} (running : (h.state n).fault = none)
      (front : (h.state n).agenda = t :: rest) (next : h.state (n + 1) = (h.state n).step)
      (turn : Turn (h.state n).context ((h.state n).memory 0) (h.state n).bindings t ds
        (h.state (n + 1)).context new (h.state (n + 1)).fault)
      (agenda : (h.state (n + 1)).agenda = new ++ rest)
      (destroyed : h.destroyed? n =
        t.doomed? (h.state n).context ((h.state n).memory 0) (h.state n).bindings)
      (leaked : h.leaked n = t.leaks (h.state n).context)

theorem reachable (n : Nat) : (h.state n).Reachable := by
  induction n with
  | zero => exact .start _ _ _
  | succ n ih =>
    unfold state Machine.course
    by_cases close : h.closing = some n
    · rw [if_pos close]
      exact ih.closing (h.idle n close)
    · rw [if_neg close]
      exact ih.step

theorem sound (n : Nat) : (h.state n).context.Sound := (h.reachable n).sound

theorem moment (n : Nat) : h.Moment n := by
  by_cases close : h.closing = some n
  · exact .closing (h.idle n close) (if_pos close) (if_pos close) (if_pos close)
  · have next : h.state (n + 1) = (h.state n).step := if_neg close
    have destroyed : h.destroyed? n = (h.state n).doomed? := if_neg close
    have leaked : h.leaked n = (h.state n).leaks := if_neg close
    by_cases stopped : (h.state n).fault ≠ none ∨ (h.state n).agenda = []
    · obtain ⟨same, none, nil⟩ := Machine.step_of_stopped stopped
      exact .still stopped (next.trans same) (destroyed.trans none) (leaked.trans nil)
    · rw [not_or, not_not] at stopped
      obtain ⟨running, busy⟩ := stopped
      obtain ⟨t, rest, front⟩ := List.exists_cons_of_ne_nil busy
      obtain ⟨ds, new, turn, agenda⟩ := Machine.turn_step (h.sound n) running front
      rw [← next] at turn agenda
      exact .turn running front next turn agenda
        (destroyed.trans (Machine.doomed?_eq running front))
        (leaked.trans (Machine.leaks_eq running front))

theorem path (n : Nat) : ∃ ds, Path (h.state n).context ds (h.state (n + 1)).context ∧
    (ds.filterMap Deed.removed?).map Doomed.ref = h.removed n := by
  cases h.moment n with
  | closing _ next destroyed leaked | still _ next destroyed leaked =>
    rw [next, removed, destroyed, leaked]
    exact ⟨[], .refl _, rfl⟩
  | turn _ _ _ turn _ destroyed leaked =>
    rw [removed, destroyed, leaked]
    exact ⟨_, turn.path, turn.removals (h.sound n)⟩

theorem mem_removed {n : Nat} {x : Ref} :
    x ∈ h.removed n ↔ x ∈ h.leaked n ∨ ∃ record, h.destroyed? n = some ⟨x, record⟩ := by
  rw [removed, List.mem_append, Option.mem_toList, Option.map_eq_some_iff]
  apply or_congr_right
  constructor
  · rintro ⟨⟨y, record⟩, doomed, rfl⟩
    exact ⟨record, doomed⟩
  · rintro ⟨record, doomed⟩
    exact ⟨_, doomed, rfl⟩

theorem mem_removed_of_path {n : Nat} {ds : List Deed} {x : Ref}
    (removed : (ds.filterMap Deed.removed?).map Doomed.ref = h.removed n) :
    x ∈ h.removed n ↔ ∃ d ∈ ds, ∃ record, d.removed? = some ⟨x, record⟩ := by
  rw [← removed, List.mem_map]
  constructor
  · rintro ⟨⟨y, record⟩, mem, rfl⟩
    obtain ⟨d, hd, shown⟩ := List.mem_filterMap.mp mem
    exact ⟨d, hd, record, shown⟩
  · rintro ⟨d, hd, record, shown⟩
    exact ⟨⟨x, record⟩, List.mem_filterMap.mpr ⟨d, hd, shown⟩, rfl⟩

theorem countP_vacates (ds : List Deed) (i : Nat) :
    ds.countP (·.vacates i) =
      ((ds.filterMap Deed.removed?).map Doomed.ref).countP (·.index = i) := by
  induction ds with
  | nil => rfl
  | cons d ds ih =>
    rw [List.countP_cons, ih]
    cases hd : d.removed? with
    | none => simp [Deed.vacates, hd]
    | some e => simp [Deed.vacates, hd, List.countP_cons]

theorem generationAt_start (i : Nat) : (h.state 0).context.table.generationAt i = 0 := by
  change (Context.new h.settings).table.generationAt i = 0
  match i with
  | 0 | 1 => rfl
  | i + 2 => rfl

/-- A cell is in the generation that its vacations have brought it to. -/
theorem generationAt_eq (n i : Nat) :
    (h.state n).context.table.generationAt i = h.vacations i n % wordBound := by
  induction n with
  | zero =>
    rw [generationAt_start]
    rfl
  | succ n ih =>
    obtain ⟨ds, path, removed⟩ := h.path n
    have small : (h.state n).context.table.generationAt i < wordBound := by
      rw [ih]
      exact Nat.mod_lt _ (by decide)
    rw [path.generationAt_eq small, ih, Nat.mod_add_mod, countP_vacates, removed, vacations]

theorem vacations_le {m n : Nat} (le : m ≤ n) (i : Nat) : h.vacations i m ≤ h.vacations i n := by
  induction le with
  | refl => exact Nat.le_refl _
  | step _ ih => exact ih.trans (Nat.le_add_right _ _)

theorem vacations_lt {k n : Nat} {x : Ref} (gone : x ∈ h.removed k) (lt : k < n) :
    h.vacations x.index k < h.vacations x.index n := by
  have once : h.vacations x.index k < h.vacations x.index (k + 1) :=
    Nat.lt_add_of_pos_right (List.countP_pos_iff.mpr ⟨x, gone, decide_eq_true rfl⟩)
  exact once.trans_le (h.vacations_le lt x.index)

theorem generation_of_present {n : Nat} {x : Ref} (present : (h.record? n x).isSome) :
    x.generation = h.vacations x.index n % wordBound := by
  obtain ⟨record, found⟩ := Option.isSome_iff_exists.mp present
  rw [← h.generationAt_eq, Table.generationAt_of_find? found]

theorem generation_of_removed {n : Nat} {x : Ref} (gone : x ∈ h.removed n) :
    x.generation = h.vacations x.index n % wordBound := by
  rw [← h.generationAt_eq]
  cases h.moment n with
  | closing _ _ destroyed leaked | still _ _ destroyed leaked =>
    rw [removed, destroyed, leaked] at gone
    cases gone
  | turn _ _ _ turn _ destroyed leaked =>
    rw [removed, destroyed, leaked] at gone
    exact (turn.generationAt_of_removed (h.sound n) gone).symm

def removals : Nat → Nat
  | 0 => 0
  | n + 1 => removals n + (h.removed n).length

theorem vacations_le_removals (i n : Nat) : h.vacations i n ≤ h.removals n := by
  induction n with
  | zero => exact Nat.le_refl 0
  | succ n ih => exact Nat.add_le_add ih List.countP_le_length

theorem removals_le {m n : Nat} (le : m ≤ n) : h.removals m ≤ h.removals n := by
  induction le with
  | refl => exact Nat.le_refl _
  | step _ ih => exact ih.trans (Nat.le_add_right _ _)

theorem still_of_stopped {n m : Nat} (unclosed : ∀ m, n ≤ m → h.closing ≠ some m)
    (stopped : (h.state n).fault ≠ none ∨ (h.state n).agenda = []) (le : n ≤ m) :
    h.state m = h.state n ∧ h.removals m = h.removals n := by
  induction le with
  | refl => exact ⟨rfl, rfl⟩
  | @step m le ih =>
    obtain ⟨same, undoomed, nil⟩ := Machine.step_of_stopped (ih.1 ▸ stopped)
    have next : h.state (m + 1) = (h.state m).step := if_neg (unclosed m le)
    have destroyed : h.destroyed? m = none := (if_neg (unclosed m le)).trans undoomed
    have leaked : h.leaked m = [] := (if_neg (unclosed m le)).trans nil
    refine ⟨(next.trans same).trans ih.1, ?_⟩
    rw [removals, removed, destroyed, leaked, ih.2]
    rfl

theorem mem_removed_of_absent {n : Nat} {x : Ref} (present : (h.record? n x).isSome)
    (absent : h.record? (n + 1) x = none) : x ∈ h.removed n := by
  obtain ⟨ds, path, removed⟩ := h.path n
  apply (h.mem_removed_of_path removed).mpr
  exact path.removed (h.sound n) (by rw [Table.bare, Option.isSome_map]; exact present)
    (Option.map_eq_none_iff.mpr absent)

theorem exists_removed {i j : Nat} {x : Ref} (le : i ≤ j) (present : (h.record? i x).isSome)
    (absent : h.record? j x = none) : ∃ k, i ≤ k ∧ k < j ∧ x ∈ h.removed k := by
  induction le with
  | refl =>
    rw [absent] at present
    cases present
  | @step j le ih =>
    cases found : h.record? j x with
    | none =>
      obtain ⟨k, ge, lt, gone⟩ := ih found
      exact ⟨k, ge, Nat.lt_succ_of_lt lt, gone⟩
    | some record =>
      exact ⟨j, le, j.lt_succ_self, h.mem_removed_of_absent (by rw [found]; rfl) absent⟩

/-- No cell is vacated so often that its generations come round again. -/
def Unrepeated : Prop := ∀ i n, h.vacations i n < wordBound

variable {h} {x : Ref} {k n : Nat}

/-- A history that comes to its end repeats no generation if it takes out few enough records. -/
theorem unrepeated_of_stopped {n : Nat} (unclosed : ∀ m, n ≤ m → h.closing ≠ some m)
    (stopped : (h.state n).fault ≠ none ∨ (h.state n).agenda = [])
    (small : h.removals n < wordBound) : h.Unrepeated := by
  intro i m
  have le := (h.vacations_le_removals i m).trans (h.removals_le (Nat.le_max_right n m))
  rw [(h.still_of_stopped unclosed stopped (Nat.le_max_left n m)).2] at le
  exact le.trans_lt small

theorem Unrepeated.absent (fresh : h.Unrepeated) (gone : x ∈ h.removed k) (lt : k < n) :
    h.record? n x = none := by
  cases found : h.record? n x with
  | none => rfl
  | some record =>
    have before := h.generation_of_removed gone
    have now := h.generation_of_present (n := n) (x := x) (by rw [found]; rfl)
    rw [Nat.mod_eq_of_lt (fresh _ _)] at before now
    exact absurd (before.symm.trans now) (Nat.ne_of_lt (h.vacations_lt gone lt))

theorem Unrepeated.removed_once (fresh : h.Unrepeated) (gone : x ∈ h.removed k)
    (again : x ∈ h.removed n) : k = n := by
  have here := h.generation_of_removed gone
  have there := h.generation_of_removed again
  rw [Nat.mod_eq_of_lt (fresh _ _)] at here there
  rcases Nat.lt_trichotomy k n with lt | eq | lt
  · exact absurd (here.symm.trans there) (Nat.ne_of_lt (h.vacations_lt gone lt))
  · exact eq
  · exact absurd (there.symm.trans here) (Nat.ne_of_lt (h.vacations_lt again lt))

theorem Unrepeated.not_mem_removed (fresh : h.Unrepeated) (present : (h.record? n x).isSome)
    (lt : k < n) : x ∉ h.removed k := by
  intro gone
  rw [fresh.absent gone lt] at present
  cases present

end History

end ScopedHeap
