import ScopedHeap.Proofs.Ledger

/-!
# Nothing is kept without reason

A thrifty client has lawful books, uses no decrement that keeps its record, and installs no hook
that does anything. Then a live record always has a count, so it is held by the client or stored in
some container. Going up from container to container ends, as long as containers do not lie in a
circle, at a record that the client holds or that waits to be destroyed (`Tended.grounded`).
-/
namespace ScopedHeap

open Context

/-- The hook runs no command. -/
def Hook.isSilent : Hook → Bool
  | .releaseSlots _ => true
  | .script _ commands => commands.isEmpty

/-- A live record is counted, and its hook runs no command. -/
structure Record.Tended (r : Record) : Prop where
  alive : r.header.state = .live → 0 < r.header.refcount
  silent : ∀ hook ∈ r.header.hook, hook.isSilent = true

/-- Deeds that keep records tended. -/
def Deed.Frugal : Deed → Prop
  | keep _ | sweep _ => False
  | hook _ h => h.isSilent = true
  | _ => True

/-- The task makes no decrement that keeps its record and installs no hook that runs a command. -/
def Task.isFrugal (b : Bindings) : Task → Bool
  | .perform _ (.setHook _ _ script) => script.isEmpty
  | t => (t.change? b).all (!·.isKeep)

namespace Context

variable {cx cx' : Context} {d : Deed} {ds : List Deed}

structure Tended (cx : Context) : Prop where
  records : ∀ x record, cx.table.bare x = some record → record.Tended
  unleaked : cx.counters.leaked = 0

theorem Move.tended (move : Move cx d cx') (sound : cx.Sound) (h : cx.Tended)
    (frugal : d.Frugal) : cx'.Tended := by
  constructor
  · intro x record hx
    have fate := move.fate sound x
    have before := h.records x
    rw [hx] at fate
    generalize cx.table.bare x = content at fate before
    cases fate with
    | same => exact before _ rfl
    | @raised old => exact ⟨fun _ => Nat.succ_pos _, (before old rfl).silent⟩
    | @lowered old => exact ⟨fun _ => Nat.succ_pos _, (before old rfl).silent⟩
    | kept => exact frugal.elim
    | @deferred old => exact ⟨nofun, (before old rfl).silent⟩
    | @hooked old hook free =>
      refine ⟨(before old rfl).alive, ?_⟩
      intro other same
      obtain rfl := Option.some.inj same
      exact frugal
    | @stored old => exact ⟨(before old rfl).alive, (before old rfl).silent⟩
    | allocated => exact ⟨fun _ => Nat.one_pos, nofun⟩
    | furnished =>
      refine ⟨fun _ => Nat.one_pos, ?_⟩
      intro hook same
      obtain rfl := Option.some.inj same
      rfl
    | settled => exact ⟨nofun, nofun⟩
  · cases move with
    | raise | raiseStatic | lower | lowerStatic | keep | defer | destroy | drain | allocate
    | allocateContainer | allocateStatic | hook | store | enter | leave | bury => exact h.unleaked
    | sweep => exact frugal.elim

theorem Move.silent_removed {e : Doomed} (move : Move cx d cx') (sound : cx.Sound) (h : cx.Tended)
    (he : d.removed? = some e) : ∀ hook ∈ e.record.header.hook, hook.isSilent = true := by
  rcases move.bare_of_removed sound he with ⟨old, hold, _, hook, _⟩
  rw [hook]
  exact (h.records e.ref old hold).silent

theorem Path.tended (path : Path cx ds cx') (sound : cx.Sound) (h : cx.Tended)
    (frugal : ∀ d ∈ ds, d.Frugal) : cx'.Tended ∧ ∀ d ∈ ds, ∀ e, d.removed? = some e →
      ∀ hook ∈ e.record.header.hook, hook.isSilent = true :=
  path.along (fun move sound h frugal =>
    ⟨move.tended sound h frugal, fun _ he => move.silent_removed sound h he⟩) sound h frugal

theorem tended_new (settings : Settings) : (Context.new settings).Tended := by
  refine ((path_new settings).tended (sound_of_empty rfl rfl) ⟨?_, rfl⟩ (by simp [Deed.Frugal])).1
  intro x record hx
  rw [bare_empty] at hx
  cases hx

/-- A slot of `x` refers to `y`. -/
def Refers (cx : Context) (x y : Ref) : Prop :=
  ∃ record, cx.table.find? x = some record ∧ y ∈ record.payload.refs

/-- No container leads back to itself. -/
def Acyclic (cx : Context) : Prop := ∀ x, ¬ Relation.TransGen cx.Refers x x

/-- There is no circle if slots refer to earlier cells only. -/
theorem acyclic_of_index_lt (h : ∀ i < cx.table.cells.size, ∀ record ∈ cx.table.recordAt? i,
    ∀ y ∈ record.payload.refs, y.index < i) : cx.Acyclic := by
  have down : ∀ {x y}, Relation.TransGen cx.Refers x y → y.index < x.index := by
    intro x y path
    have single : ∀ {x y}, cx.Refers x y → y.index < x.index := by
      rintro x y ⟨record, found, hy⟩
      have there := (Table.find?_eq_some.mp found).2
      exact h x.index (Table.lt_size_of_recordAt? there) record there y hy
    induction path with
    | single refers => exact single refers
    | tail _ refers ih => exact (single refers).trans ih
  exact fun x cycle => Nat.lt_irrefl x.index (down cycle)

def Present (cx : Context) : Type := { x : Ref // (cx.table.find? x).isSome = true }

instance (cx : Context) : Finite cx.Present := by
  have place : ∀ x : cx.Present, x.1.index < cx.table.cells.size := by
    intro x
    rcases Option.isSome_iff_exists.mp x.2 with ⟨record, found⟩
    exact Table.lt_size_of_recordAt? (Table.find?_eq_some.mp found).2
  apply Finite.of_injective (fun x : cx.Present => (⟨x.1.index, place x⟩ : Fin cx.table.cells.size))
  intro x y same
  rcases Option.isSome_iff_exists.mp x.2 with ⟨_, hx⟩
  rcases Option.isSome_iff_exists.mp y.2 with ⟨_, hy⟩
  exact Subtype.ext (Table.eq_of_index_eq hy hx (Fin.mk.inj same))

theorem Acyclic.wellFounded (h : cx.Acyclic) :
    WellFounded fun x y : cx.Present => Relation.TransGen cx.Refers x.1 y.1 := by
  have trans : IsTrans cx.Present fun x y => Relation.TransGen cx.Refers x.1 y.1 :=
    ⟨fun _ _ _ => Relation.TransGen.trans⟩
  have irrefl : Std.Irrefl fun x y : cx.Present => Relation.TransGen cx.Refers x.1 y.1 :=
    ⟨fun x => h x.1⟩
  exact Finite.wellFounded_of_trans_of_irrefl _

end Context

theorem Deed.Permitted.frugal {c : Change} {d : Deed} (h : d.Permitted c)
    (gives : c.isKeep = false) : d.Frugal := by
  cases d with
  | raise | lower | defer | destroy | allocate | allocateStatic | store | enter => trivial
  | keep => exact absurd (gives.symm.trans h) Bool.false_ne_true
  | drain | hook | leave | bury | sweep => exact h.elim

theorem Task.isKeep_eq_false {b : Bindings} {t : Task} {c : Change} (h : t.isFrugal b = true)
    (hc : t.change? b = some c) : c.isKeep = false := by
  unfold Task.isFrugal at h
  split at h
  · cases hc
  · rw [hc] at h
    simpa using h

theorem Turn.frugal {cx cx' : Context} {grants : Grants} {b : Bindings} {t : Task} {ds : List Deed}
    {new : List Task} {fault : Option Fault} (turn : Turn cx grants b t ds cx' new fault)
    (h : t.isFrugal b = true) (keeps : t.isSweep = false) : ∀ d ∈ ds, d.Frugal := by
  cases turn with
  | asked | unbound | outermost | popping | unhooked | scripted | released | stuck | finished
  | bottom | closing | mismatched | unwound | unwinding | drained => simp
  | opened | buried | exiting | left | draining => simp [Deed.Frugal]
  | hooked =>
    intro d hd
    rw [List.mem_singleton.mp hd]
    exact h
  | changed read _ _ completed =>
    intro d hd
    exact (completed.permitted d hd).frugal (Task.isKeep_eq_false h (Task.change?_of_read read))
  | refused read _ _ failed =>
    intro d hd
    exact (failed.permitted d hd).frugal (Task.isKeep_eq_false h (Task.change?_of_read read))
  | releasing _ _ _ conduct =>
    intro d hd
    exact (conduct.permitted (.increment .heap none) d hd).frugal rfl
  | swept => cases keeps

namespace Books

variable {b : Books}

/-- The next step is lawful, makes no decrement that keeps its record and installs no hook that runs
a command. -/
structure Thrifty (b : Books) : Prop extends b.Lawful where
  frugal : ∀ t ∈ b.machine.agenda.head?, t.isFrugal b.machine.bindings = true

instance (b : Books) : Decidable b.Thrifty :=
  decidable_of_iff (b.Lawful ∧ ∀ t ∈ b.machine.agenda.head?, t.isFrugal b.machine.bindings = true)
    ⟨fun ⟨lawful, frugal⟩ => ⟨lawful, frugal⟩, fun h => ⟨h.toLawful, h.frugal⟩⟩

structure Tended (b : Books) : Prop extends b.Kept where
  tended : b.machine.context.Tended

theorem Tended.step (h : b.Tended) (thrifty : b.Thrifty) : b.step.Tended := by
  refine ⟨h.toKept.step thrifty.toLawful, ?_⟩
  rcases b.step_cases with same | ⟨running, t, rest, next⟩
  · rw [same]
    exact h.tended
  · rcases Machine.turn_step h.sound running next with ⟨ds, new, turn, _⟩
    have first : t ∈ b.machine.agenda.head? := by rw [next]; rfl
    exact (turn.path.tended h.sound h.tended
      (turn.frugal (thrifty.frugal t first) (thrifty.keeps t first))).1

theorem Run.tended (h : b.Run Thrifty) : b.Tended := by
  induction h with
  | start settings memory program => exact ⟨kept_start settings memory program, tended_new settings⟩
  | step _ thrifty ih => exact ih.step thrifty
  | closing _ idle ih => exact ⟨ih.toKept.closing idle, ih.tended⟩

/-- A live record that the client does not hold is stored in a container. -/
theorem Tended.stored (h : b.Tended) (landed : inFlight b.machine.agenda = []) {x : Ref}
    {record : Record} (found : b.machine.context.table.find? x = some record)
    (live : record.header.state = .live) (unowned : b.owned x = 0) :
    ∃ y, b.machine.context.Refers y x := by
  have shown := Table.bare_of_find? found
  have positive : 0 < record.header.refcount := (h.tended.records x _ shown).alive live
  have tracked : record.header.creationScope ≠ staticScope := by
    intro scope
    cases live.symm.trans ((h.sound.proper x _ shown).static.mpr scope)
  have balance := h.balance x ((Table.isStatic_eq_false found).mpr tracked)
  rw [landed, Table.count_of_find? found, unowned, List.count_nil] at balance
  obtain ⟨y, container, hy, hx⟩ := Table.exists_mem_refs (t := b.machine.context.table) (x := x)
    (by omega)
  exact ⟨y, container, hy, hx⟩

theorem Kept.tracked_of_refers (h : b.Kept) {x y : Ref} {record : Record}
    (found : b.machine.context.table.find? x = some record)
    (refers : b.machine.context.Refers x y) :
    record.header.creationScope ≠ staticScope := by
  rcases refers with ⟨other, hother, hy⟩
  obtain rfl := Option.some.inj (found.symm.trans hother)
  have furnished := h.furnished x _ (Table.bare_of_find? found)
  refine (furnished ?_).2
  cases container : record.payload.isContainer with
  | true => exact container
  | false =>
    rw [Payload.refs_of_plain container] at hy
    cases hy

/-- Every record that is not static is held by the client or waits to be destroyed, or a container
that leads to it is or does, and that is not static either. -/
theorem Tended.grounded (h : b.Tended) (landed : inFlight b.machine.agenda = [])
    (acyclic : b.machine.context.Acyclic) {x : Ref} {record : Record}
    (found : b.machine.context.table.find? x = some record)
    (tracked : record.header.creationScope ≠ staticScope) :
    ∃ root, Relation.ReflTransGen b.machine.context.Refers root x ∧
      b.machine.context.table.isStatic root = false ∧
      (b.machine.context.isPending root = true ∨ 0 < b.owned root) := by
  suffices climb : ∀ place : b.machine.context.Present, ∀ record,
      b.machine.context.table.find? place.1 = some record →
      record.header.creationScope ≠ staticScope →
      ∃ root, Relation.ReflTransGen b.machine.context.Refers root place.1 ∧
        b.machine.context.table.isStatic root = false ∧
        (b.machine.context.isPending root = true ∨ 0 < b.owned root) from
    climb ⟨x, by rw [found]; rfl⟩ record found tracked
  intro place
  -- the induction goes up from a record to one that stores it
  induction place using acyclic.wellFounded.induction with
  | h place ih =>
    intro record found tracked
    have shown := Table.bare_of_find? found
    have counted := (Table.isStatic_eq_false found).mpr tracked
    cases state : record.header.state with
    | static => exact absurd ((h.sound.proper _ _ shown).static.mp state) tracked
    | pending => exact ⟨place.1, .refl, counted, Or.inl (isPending_iff.mpr ⟨_, shown, state⟩)⟩
    | live =>
      by_cases unowned : b.owned place.1 = 0
      · rcases h.stored landed found state unowned with ⟨y, refers⟩
        rcases id refers with ⟨container, hy, _⟩
        obtain ⟨root, path, reason⟩ := ih ⟨y, by rw [hy]; rfl⟩ (.single refers) container hy
          (h.tracked_of_refers hy refers)
        exact ⟨root, path.tail refers, reason⟩
      · exact ⟨place.1, .refl, counted, Or.inr (Nat.pos_of_ne_zero unowned)⟩

end Books

end ScopedHeap
