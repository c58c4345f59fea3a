import ScopedHeap.Proofs.Statistics

/-!
# What becomes of the levels

`Level.Shift` lists what a single move does to the levels, root first: it appends to queues, takes
the oldest record off the queue on top, or puts on or takes off a level on top. So the lowest levels
of a stack stay as they are, but for what is appended to their queues, as long as no level among
them comes to the top and is drained (`Turn.spares`).
-/
namespace ScopedHeap

open Context

namespace Level

/-- The same level later on, with its old queue at the front of its queue. -/
structure Extends (old new : Level) : Prop where
  id : new.id = old.id
  serial : new.serial = old.serial
  queue : old.queue <+: new.queue

theorem Extends.refl (level : Level) : Extends level level := ⟨rfl, rfl, List.prefix_rfl⟩

theorem Extends.trans {a b c : Level} (h : Extends a b) (k : Extends b c) : Extends a c :=
  ⟨k.id.trans h.id, k.serial.trans h.serial, h.queue.trans k.queue⟩

def home (level : Level) : Home := ⟨level.id, level.serial⟩

theorem Extends.home_eq {a b : Level} (h : Extends a b) : b.home = a.home := by
  rw [home, home, h.id, h.serial]

theorem extends_refl (l : List Level) : List.Forall₂ Extends l l := by
  rw [List.forall₂_same]
  exact fun level _ => .refl level

theorem extends_trans {l k j : List Level} (h : List.Forall₂ Extends l k)
    (h' : List.Forall₂ Extends k j) : List.Forall₂ Extends l j := by
  induction h generalizing j with
  | nil => exact h'
  | cons first _ ih =>
    cases h' with
    | cons second rest => exact .cons (first.trans second) (ih rest)

theorem map_home_eq {l k : List Level} (h : List.Forall₂ Extends l k) :
    k.map home = l.map home := by
  induction h with
  | nil => rfl
  | cons first _ ih => rw [List.map_cons, List.map_cons, first.home_eq, ih]

theorem prefix_queue {l k : List Level} (h : List.Forall₂ Extends l k) (i : Nat) :
    l[i]?.elim [] queue <+: k[i]?.elim [] queue := by
  induction h generalizing i with
  | nil => exact List.prefix_rfl
  | cons first _ ih =>
    cases i with
    | zero => exact first.queue
    | succ i => exact ih i

theorem extends_dropLast {l k : List Level} (h : List.Forall₂ Extends l k) :
    List.Forall₂ Extends l.dropLast k.dropLast := by
  rw [List.dropLast_eq_take, List.dropLast_eq_take, h.length_eq]
  exact List.forall₂_take _ h

theorem extends_modify (l : List Level) (k : Nat) (r : Ref) :
    List.Forall₂ Extends l (l.modify k (ScopeStack.enqueue r)) := by
  induction l generalizing k with
  | nil => cases k <;> exact .nil
  | cons level rest ih =>
    cases k with
    | zero => exact .cons ⟨rfl, rfl, List.prefix_append _ _⟩ (extends_refl rest)
    | succ k => exact .cons (.refl level) (ih k)

/-- What a deed does to the levels, root first. -/
inductive Shift : Deed → List Level → List Level → Prop
  | extend {d : Deed} {l k : List Level} (grown : List.Forall₂ Extends l k) : Shift d l k
  | drain {d : Doomed} {l : List Level} {top : Level} {rest : List Ref}
      (queue : top.queue = d.ref :: rest) :
      Shift (.drain d) (l ++ [top]) (l ++ [{ top with queue := rest }])
  | enter {l : List Level} (top : Level) : Shift .enter l (l ++ [top])
  | leave {l : List Level} (top : Level) : Shift .leave (l ++ [top]) l

end Level

namespace ScopeStack

theorem levels_eq (s : ScopeStack) : s.levels = s.outer.reverse ++ [s.active] :=
  List.reverse_cons

theorem length_levels (s : ScopeStack) : s.levels.length = s.depth := by
  rw [levels, List.length_reverse]
  rfl

theorem levels_push (s : ScopeStack) : s.push.levels = s.levels ++ [s.push.active] :=
  s.push.levels_eq

theorem levels_of_pop {s u : ScopeStack} {level : Level} (h : s.pop = .ok (level, u)) :
    s.levels = u.levels ++ [s.active] := by
  rw [levels_eq, (pop_spec h).2]
  rfl

theorem extends_defer (s : ScopeStack) (home : Home) (r : Ref) :
    List.Forall₂ Level.Extends s.levels (s.defer home r).2.levels := by
  unfold levels defer
  rw [List.forall₂_reverse_iff]
  cases s.depth - 1 - (home.scope - 1) with
  | zero => exact .cons ⟨rfl, rfl, List.prefix_append _ _⟩ (Level.extends_refl _)
  | succ up => exact .cons (.refl _) (Level.extends_modify _ _ _)

/-- Below the active level, the level of its home scope takes in a record that is put off, and no
other level changes. -/
theorem levels_defer {s : ScopeStack} {home : Home} (h : s.Numbered)
    (pos : 0 < home.scope) (lt : home.scope < s.current) (r : Ref) :
    ∃ below level above, s.levels = below ++ level :: above ∧ level.id = home.scope ∧
      (s.defer home r).2.levels = below ++ enqueue r level :: above := by
  obtain ⟨level, found, id, deferred⟩ := defer_eq (r := r) h pos lt
  have inside := (List.getElem?_eq_some_iff.mp found).1
  obtain ⟨above, other, below, outer, length, changed⟩ :=
    List.exists_of_modify (enqueue r) inside
  obtain rfl : other = level := by
    rw [← length, outer] at found
    simpa using found
  refine ⟨below.reverse, other, above.reverse ++ [s.active], ?_, id, ?_⟩
  · rw [levels_eq, outer]
    simp
  · rw [deferred, levels_eq, changed]
    simp

/-- The lowest `d` levels stay where they are, and their queues lose nothing. -/
structure Spares (d : Nat) (s u : ScopeStack) : Prop where
  before : d ≤ s.depth
  after : d ≤ u.depth
  levels : List.Forall₂ Level.Extends (s.levels.take d) (u.levels.take d)

variable {d : Nat} {s u v : ScopeStack}

theorem Spares.refl (le : d ≤ s.depth) : Spares d s s := ⟨le, le, Level.extends_refl _⟩

theorem Spares.trans (h : Spares d s u) (k : Spares d u v) : Spares d s v :=
  ⟨h.before, k.after, Level.extends_trans h.levels k.levels⟩

theorem Spares.mono {e : Nat} (h : Spares d s u) (le : e ≤ d) : Spares e s u := by
  refine ⟨le.trans h.before, le.trans h.after, ?_⟩
  have lower := List.forall₂_take e h.levels
  rwa [List.take_take, List.take_take, Nat.min_eq_left le] at lower

end ScopeStack

namespace Context

variable {cx cx' : Context} {d : Deed} {ds : List Deed} {n : Nat}

theorem Sound.two_le_depth (h : cx.Sound) (deep : cx.current ≠ rootScope) :
    2 ≤ cx.scopes.depth := by
  have pos : 0 < cx.scopes.depth := Nat.succ_pos _
  have other : cx.scopes.depth ≠ 1 := fun one => deep (h.numbered.current_eq.trans one)
  omega

theorem Move.shift (move : Move cx d cx') :
    Level.Shift d cx.scopes.levels cx'.scopes.levels := by
  cases move with
  | raise | raiseStatic | lower | lowerStatic | keep | destroy | allocate | allocateContainer
  | allocateStatic | hook | store | bury | sweep => exact .extend (Level.extends_refl _)
  | defer => exact .extend (ScopeStack.extends_defer _ _ _)
  | drain queue =>
    rw [ScopeStack.levels_eq, ScopeStack.levels_eq]
    exact .drain queue
  | enter =>
    rw [ScopeStack.levels_push]
    exact .enter _
  | leave _ popped =>
    rw [ScopeStack.levels_of_pop popped]
    exact .leave _

theorem Move.depth_eq (move : Move cx d cx') (enter : d ≠ .enter) (leave : d ≠ .leave) :
    cx'.scopes.depth = cx.scopes.depth := by
  have shift := move.shift
  rw [← ScopeStack.length_levels, ← ScopeStack.length_levels]
  generalize cx.scopes.levels = l at *
  generalize cx'.scopes.levels = k at *
  cases shift with
  | extend grown => exact grown.length_eq.symm
  | drain => rw [List.length_append, List.length_append, List.length_singleton,
      List.length_singleton]
  | enter => exact absurd rfl enter
  | leave => exact absurd rfl leave

theorem Move.queue_of_drain {e : Doomed} (move : Move cx (.drain e) cx') :
    cx.scopes.active.queue = e.ref :: cx'.scopes.active.queue := by
  cases move with
  | drain queue => exact queue

theorem Move.queue_of_leave (move : Move cx .leave cx') : cx.scopes.active.queue = [] := by
  cases move with
  | leave empty => exact empty

theorem Move.pop_of_leave (move : Move cx .leave cx') :
    cx.scopes.pop = .ok (cx.scopes.active, cx'.scopes) := by
  cases move with
  | leave _ popped =>
    rw [popped, (ScopeStack.pop_spec popped).1]

theorem Move.depth_of_leave (move : Move cx .leave cx') :
    cx'.scopes.depth + 1 = cx.scopes.depth := by
  cases move with
  | leave _ popped =>
    rw [← ScopeStack.length_levels, ← ScopeStack.length_levels, ScopeStack.levels_of_pop popped,
      List.length_append, List.length_singleton]

theorem Move.spares (move : Move cx d cx') (before : n ≤ cx.scopes.depth)
    (after : n ≤ cx'.scopes.depth) (low : ∀ e, d = .drain e → n < cx.scopes.depth) :
    ScopeStack.Spares n cx.scopes cx'.scopes := by
  refine ⟨before, after, ?_⟩
  have shift := move.shift
  rw [← ScopeStack.length_levels] at before after low
  generalize cx.scopes.levels = l at *
  generalize cx'.scopes.levels = k at *
  cases shift with
  | extend grown => exact List.forall₂_take n grown
  | @drain e l top rest queue =>
    have le : n ≤ l.length := by
      have lt := low e rfl
      rw [List.length_append, List.length_singleton] at lt
      exact Nat.le_of_lt_succ lt
    rw [List.take_append_of_le_length le, List.take_append_of_le_length le]
    exact Level.extends_refl _
  | enter =>
    rw [List.take_append_of_le_length before]
    exact Level.extends_refl _
  | leave =>
    rw [List.take_append_of_le_length after]
    exact Level.extends_refl _

theorem Move.homes (move : Move cx d cx') (before : n ≤ cx.scopes.depth)
    (after : n ≤ cx'.scopes.depth) :
    (cx'.scopes.levels.map Level.home).take n = (cx.scopes.levels.map Level.home).take n := by
  have shift := move.shift
  rw [← ScopeStack.length_levels] at before after
  generalize cx.scopes.levels = l at *
  generalize cx'.scopes.levels = k at *
  cases shift with
  | extend grown => rw [Level.map_home_eq grown]
  | drain =>
    rw [List.map_append, List.map_append]
    rfl
  | enter => rw [List.map_append, List.take_append_of_le_length (by rwa [List.length_map])]
  | leave => rw [List.map_append, List.take_append_of_le_length (by rwa [List.length_map])]

theorem Path.spares (path : Path cx ds cx') (le : n ≤ cx.scopes.depth) (stays : .leave ∉ ds)
    (keeps : ∀ e, .drain e ∉ ds) : ScopeStack.Spares n cx.scopes cx'.scopes := by
  induction path with
  | refl => exact .refl le
  | @move a b c d ds first _ ih =>
    rw [List.mem_cons, not_or] at stays
    have after := le.trans (first.depth_le (Ne.symm stays.1))
    have now : ∀ e, d = .drain e → n < a.scopes.depth := by
      rintro e rfl
      exact absurd List.mem_cons_self (keeps e)
    exact (first.spares le after now).trans
      (ih after stays.2 fun e he => keeps e (List.mem_cons_of_mem _ he))

end Context

section Turns

variable {cx cx' : Context} {grants : Grants} {b : Bindings} {t : Task} {ds : List Deed}
  {new : List Task} {fault : Option Fault} {n : Nat}

/-- A turn takes off one level and does nothing else, or it takes off none. -/
theorem Turn.leaves (turn : Turn cx grants b t ds cx' new fault) : .leave ∉ ds ∨ ds = [.leave] := by
  cases turn with
  | asked | unbound | outermost | popping | unhooked | scripted | released | stuck | finished
  | bottom | closing | mismatched | unwound | unwinding | drained => exact Or.inl (by simp)
  | hooked | opened | buried | exiting | draining => exact Or.inl (by simp)
  | changed _ _ _ completed => exact Or.inl fun leaves => completed.permitted _ leaves
  | refused _ _ _ failed => exact Or.inl fun leaves => failed.permitted _ leaves
  | releasing _ _ _ conduct => exact Or.inl fun leaves => conduct.ordinary _ leaves
  | left => exact Or.inr rfl
  | swept _ sweeps =>
    refine Or.inl fun leaves => ?_
    obtain ⟨x, hx⟩ := sweeps _ leaves
    cases hx

theorem Turn.spares (turn : Turn cx grants b t ds cx' new fault) (before : n ≤ cx.scopes.depth)
    (after : n ≤ cx'.scopes.depth) (low : ∀ e, .drain e ∈ ds → n < cx.scopes.depth) :
    ScopeStack.Spares n cx.scopes cx'.scopes := by
  have path := turn.path
  have single : ∀ {d}, ds = [d] → ScopeStack.Spares n cx.scopes cx'.scopes := by
    rintro d rfl
    cases path with
    | move move rest =>
      cases rest
      exact move.spares before after fun e he => low e (List.mem_singleton.mpr he.symm)
  rcases turn.leaves with stays | leaves
  · rcases turn.drains with keeps | ⟨e, drains⟩
    · exact path.spares before stays keeps
    · exact single drains
  · exact single leaves

theorem Turn.homes (turn : Turn cx grants b t ds cx' new fault) (before : n ≤ cx.scopes.depth)
    (after : n ≤ cx'.scopes.depth) :
    (cx'.scopes.levels.map Level.home).take n = (cx.scopes.levels.map Level.home).take n := by
  by_cases drains : ∃ e, ds = [.drain e]
  · obtain ⟨e, rfl⟩ := drains
    have path := turn.path
    cases path with
    | move move rest =>
      cases rest
      exact move.homes before after
  · have spares := turn.spares before after fun e he => by
      rcases turn.drains with keeps | drained
      · exact absurd he (keeps e)
      · exact absurd drained drains
    rw [← List.map_take, ← List.map_take]
    exact Level.map_home_eq spares.levels

end Turns

end ScopedHeap
