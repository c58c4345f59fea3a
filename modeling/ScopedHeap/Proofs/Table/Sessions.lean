import ScopedHeap.Proofs.Table.Links

/-!
# The table as a map whose keys are never used twice

A client of a table sees nothing but its responses. From these it can keep a map of its own: what it
has stored last under each reference, and has not removed since (`Session.notes`). After any
sequence of requests the table answers as this map does (`Mirrors`), whatever references the
requests name, and however the links are left by attaching, detaching and altering: no request looks
for a record along them.

A reference that is given out again is the only thing a client could be misled by. A cell begins a
new generation each time it is vacated, so that takes as many vacations of one cell as there are
generations (`Session.Fresh`). -/
namespace ScopedHeap.Table

inductive Request where
  /-- Stores a record; `grant` is what the allocator says to it. -/
  | insert (grant : Grant) (record : Record)
  | get (r : Ref)
  /-- Finds a record and changes it in place, its links included. -/
  | alter (r : Ref) (f : Record → Record)
  | contains (r : Ref)
  | remove (r : Ref)
  | attach (r : Ref)
  | detach (r : Ref)

inductive Response where
  | stored (outcome : Except Error Ref)
  | found (outcome : Except Error Record)
  | present (answer : Bool)
  | done

/-- The response to a request, and the table after it. -/
def serve (t : Table) : Request → Response × Table
  | .insert grant record =>
    match t.insert grant record with
    | .ok (r, u) => (.stored (.ok r), u)
    | .error e => (.stored (.error e), t)
  | .get r => (.found (t.find r), t)
  | .alter r f =>
    match t.find r with
    | .ok record => (.found (.ok record), t.modifyAt r.index f)
    | .error e => (.found (.error e), t)
  | .contains r => (.present (t.contains r), t)
  | .remove r =>
    match t.remove r with
    | .ok (record, u) => (.found (.ok record), u)
    | .error e => (.found (.error e), t)
  | .attach r => (.done, t.attach r.index)
  | .detach r => (.done, t.detach r.index)

structure Exchange where
  request : Request
  response : Response

namespace Exchange

def issued? : Exchange → Option Ref
  | ⟨.insert _ _, .stored (.ok r)⟩ => some r
  | _ => none

def removed? : Exchange → Option Ref
  | ⟨.remove r, .found (.ok _)⟩ => some r
  | _ => none

/-- What becomes of the client's map. -/
def note : Exchange → (Ref → Option Record) → Ref → Option Record
  | ⟨.insert _ record, .stored (.ok r)⟩, m => Function.update m r (some record)
  | ⟨.alter r f, .found (.ok record)⟩, m => Function.update m r (some (f record))
  | ⟨.remove r, .found (.ok _)⟩, m => Function.update m r none
  | _, m => m

end Exchange

/-- A table together with all that has been exchanged with it. -/
structure Session where
  /-- Latest first. -/
  log : List Exchange
  table : Table

namespace Session

def start : Session := ⟨[], .empty⟩

def serve (s : Session) (request : Request) : Session :=
  ⟨⟨request, (s.table.serve request).1⟩ :: s.log, (s.table.serve request).2⟩

/-- The session in which these requests have been made, in this order, of an empty table. -/
def of (requests : List Request) : Session := requests.foldl serve start

def issued (s : Session) : List Ref := s.log.filterMap Exchange.issued?

def removed (s : Session) : List Ref := s.log.filterMap Exchange.removed?

def vacations (s : Session) (i : Nat) : Nat := s.removed.countP (·.index = i)

/-- What has been stored last under each reference, going by the responses alone. -/
def notes (s : Session) : Ref → Option Record := s.log.foldr Exchange.note fun _ => none

/-- The reference has been given out by an insertion and not been removed since. -/
def Holds (s : Session) (x : Ref) : Prop :=
  ∃ later exchange earlier, s.log = later ++ exchange :: earlier ∧
    exchange.issued? = some x ∧ ∀ e ∈ later, e.removed? ≠ some x

end Session

/-- All that can happen in an exchange: a record is stored, changed or removed, or nothing but
links. -/
inductive Served (t : Table) : Exchange → Table → Prop
  | stored {grant : Grant} {record : Record} {r : Ref} {u : Table}
    (inserted : t.insert grant record = .ok (r, u)) :
    Served t ⟨.insert grant record, .stored (.ok r)⟩ u
  | altered {r : Ref} {record : Record} (found : t.find? r = some record) (f : Record → Record) :
    Served t ⟨.alter r f, .found (.ok record)⟩ (t.modifyAt r.index f)
  | removed {r : Ref} {record : Record} {u : Table} (removed : t.remove r = .ok (record, u)) :
    Served t ⟨.remove r, .found (.ok record)⟩ u
  | other {e : Exchange} {u : Table} (issued : e.issued? = none) (removed : e.removed? = none)
    (note : e.note = id) (relinks : Relinks t u) (occupied : u.occupied = t.occupied) :
    Served t e u

variable {t u : Table} {x : Ref}

theorem served (t : Table) (request : Request) :
    Served t ⟨request, (t.serve request).1⟩ (t.serve request).2 := by
  cases request with
  | insert grant record =>
    cases inserted : t.insert grant record with
    | ok stored =>
      rw [serve, inserted]
      exact .stored inserted
    | error e =>
      rw [serve, inserted]
      exact .other rfl rfl rfl (.refl t) rfl
  | get r => exact .other rfl rfl rfl (.refl t) rfl
  | alter r f =>
    cases found : t.find r with
    | ok record =>
      rw [serve, found]
      exact .altered (find_eq_ok_iff.mp found) f
    | error e =>
      rw [serve, found]
      exact .other rfl rfl rfl (.refl t) rfl
  | contains r => exact .other rfl rfl rfl (.refl t) rfl
  | remove r =>
    cases removed : t.remove r with
    | ok taken =>
      rw [serve, removed]
      exact .removed removed
    | error e =>
      rw [serve, removed]
      exact .other rfl rfl rfl (.refl t) rfl
  | attach r => exact .other rfl rfl rfl (t.relinks_attach r.index) (t.occupied_attach r.index)
  | detach r => exact .other rfl rfl rfl (t.relinks_detach r.index) (t.occupied_detach r.index)

/-- Every request under the reference finds this record. -/
structure Finds (t : Table) (x : Ref) (record : Record) : Prop where
  get : t.serve (.get x) = (.found (.ok record), t)
  alter : ∀ f, (t.serve (.alter x f)).1 = .found (.ok record)
  contains : t.serve (.contains x) = (.present true, t)
  remove : (t.serve (.remove x)).1 = .found (.ok record)

/-- Every request under the reference is refused, and changes nothing. -/
structure Refuses (t : Table) (x : Ref) : Prop where
  get : t.serve (.get x) = (.found (.error (.danglingReference x.index x.generation)), t)
  alter : ∀ f, t.serve (.alter x f) =
    (.found (.error (.danglingReference x.index x.generation)), t)
  contains : t.serve (.contains x) = (.present false, t)
  remove : t.serve (.remove x) = (.found (.error (.danglingReference x.index x.generation)), t)

theorem finds_of_find? {record : Record} (h : t.find? x = some record) : t.Finds x record where
  get := by rw [serve, find_eq_ok_iff.mpr h]
  alter := by
    intro f
    rw [serve, find_eq_ok_iff.mpr h]
  contains := by
    rw [serve, Table.contains, h]
    rfl
  remove := by
    obtain ⟨u, removed⟩ := remove_eq_ok h
    rw [serve, removed]

theorem refuses_of_find? (h : t.find? x = none) : t.Refuses x := by
  have refused : t.find x = .error (dangling x) := by rw [find, h]
  exact {
    get := by rw [serve, refused, dangling]
    alter := fun f => by rw [serve, refused, dangling]
    contains := by
      rw [serve, Table.contains, h]
      rfl
    remove := by rw [serve, Table.remove, h, dangling] }

namespace Session

variable {s : Session} {e : Exchange}

def extend (s : Session) (e : Exchange) (u : Table) : Session := ⟨e :: s.log, u⟩

theorem issued_extend (s : Session) (e : Exchange) (u : Table) :
    (s.extend e u).issued = e.issued?.toList ++ s.issued := by
  unfold issued extend
  cases new : e.issued? <;> simp [new]

theorem removed_extend (s : Session) (e : Exchange) (u : Table) :
    (s.extend e u).removed = e.removed?.toList ++ s.removed := by
  unfold removed extend
  cases gone : e.removed? <;> simp [gone]

theorem notes_extend (s : Session) (e : Exchange) (u : Table) :
    (s.extend e u).notes = e.note s.notes := rfl

theorem holds_extend : (s.extend e u).Holds x ↔
    e.issued? = some x ∨ e.removed? ≠ some x ∧ s.Holds x := by
  constructor
  · rintro ⟨later, exchange, earlier, log, issued, kept⟩
    cases later with
    | nil =>
      injection log with first _
      exact .inl (first ▸ issued)
    | cons e later =>
      injection log with first rest
      exact .inr ⟨first ▸ kept e List.mem_cons_self, later, exchange, earlier, rest, issued,
        fun e he => kept e (List.mem_cons_of_mem _ he)⟩
  · rintro (issued | ⟨kept, later, exchange, earlier, log, issued, before⟩)
    · exact ⟨[], e, s.log, rfl, issued, fun e he => absurd he List.not_mem_nil⟩
    · refine ⟨e :: later, exchange, earlier, congrArg (List.cons e) log, issued, fun e' he => ?_⟩
      cases he with
      | head => exact kept
      | tail _ he => exact before e' he

/-- The table is as the log says. -/
structure Mirrors (s : Session) : Prop where
  vacant : s.table.Vacant
  filled : s.table.Filled
  bare : ∀ x, s.table.bare x = (s.notes x).map Record.core
  holds : ∀ x, (s.table.bare x).isSome ↔ s.Holds x
  generation : ∀ i, s.table.generationAt i = s.vacations i % wordBound
  occupied : s.table.occupied + s.removed.length = s.issued.length

variable {grant : Grant} {record : Record} {r : Ref}

theorem mirrors_start : start.Mirrors where
  vacant := ⟨List.nodup_nil, fun i => by simp [start, Table.empty]⟩
  filled := rfl
  bare := fun x => rfl
  holds := by
    intro x
    constructor
    · intro found
      cases found
    · rintro ⟨later, exchange, earlier, log, _⟩
      cases later with
      | nil => cases log
      | cons e later => cases log
  generation := fun i => rfl
  occupied := rfl

theorem Mirrors.store (h : s.Mirrors) (inserted : s.table.insert grant record = .ok (r, u)) :
    (s.extend ⟨.insert grant record, .stored (.ok r)⟩ u).Mirrors where
  vacant := (insert_spec h.vacant inserted).2
  filled := h.filled.insert inserted
  bare := by
    intro x
    rw [notes_extend, Exchange.note, Function.update_apply]
    refine ((insert_spec h.vacant inserted).1.bare_eq x).trans ?_
    rw [h.bare, apply_ite (Option.map Record.core), Option.map_some]
  holds := by
    intro x
    rw [holds_extend, ← h.holds]
    change (u.bare x).isSome ↔ _
    rw [(insert_spec h.vacant inserted).1.bare_eq]
    by_cases hx : x = r
    · simp [hx, Exchange.issued?]
    · simp [hx, Ne.symm hx, Exchange.issued?, Exchange.removed?]
  generation := by
    intro i
    refine (generationAt_insert inserted i).trans ?_
    rw [h.generation, vacations, vacations, removed_extend]
    rfl
  occupied := by
    have more := occupied_insert inserted
    have before := h.occupied
    rw [issued_extend, removed_extend]
    simp only [extend, Exchange.issued?, Exchange.removed?, Option.toList, List.nil_append,
      List.length_append, List.length_singleton]
    omega

theorem Mirrors.alter (h : s.Mirrors) (found : s.table.find? r = some record)
    (f : Record → Record) :
    (s.extend ⟨.alter r f, .found (.ok record)⟩ (s.table.modifyAt r.index f)).Mirrors where
  vacant := h.vacant.modifyAt r.index f
  filled := h.filled.modifyAt r.index f
  bare := by
    intro x
    rw [notes_extend, Exchange.note, Function.update_apply]
    refine (bare_modifyAt_of_find? found f x).trans ?_
    rw [h.bare, apply_ite (Option.map Record.core), Option.map_some]
  holds := by
    intro x
    rw [holds_extend, ← h.holds]
    change ((s.table.modifyAt r.index f).bare x).isSome ↔ _
    rw [bare_modifyAt_of_find? found]
    by_cases hx : x = r
    · simp [hx, bare_of_find? found, Exchange.removed?]
    · simp [hx, Exchange.issued?, Exchange.removed?]
  generation := fun i => (generationAt_modifyAt ..).trans (h.generation i)
  occupied := h.occupied

theorem Mirrors.remove (h : s.Mirrors) (removed : s.table.remove r = .ok (record, u)) :
    (s.extend ⟨.remove r, .found (.ok record)⟩ u).Mirrors where
  vacant := (remove_spec h.vacant removed).2
  filled := h.filled.remove h.vacant removed
  bare := by
    intro x
    rw [notes_extend, Exchange.note, Function.update_apply]
    refine ((remove_spec h.vacant removed).1.bare_eq x).trans ?_
    rw [h.bare, apply_ite (Option.map Record.core), Option.map_none]
  holds := by
    intro x
    rw [holds_extend, ← h.holds]
    change (u.bare x).isSome ↔ _
    rw [(remove_spec h.vacant removed).1.bare_eq]
    by_cases hx : x = r
    · simp [hx, Exchange.issued?, Exchange.removed?]
    · simp [hx, Ne.symm hx, Exchange.issued?, Exchange.removed?]
  generation := by
    intro i
    refine (generationAt_remove removed i).trans ?_
    rw [h.generation, vacations, vacations, removed_extend]
    simp only [Exchange.removed?, Option.toList, List.singleton_append, List.countP_cons,
      decide_eq_true_eq]
    by_cases hi : r.index = i
    · rw [if_pos hi, if_pos hi, Nat.mod_add_mod]
    · rw [if_neg hi, if_neg hi, Nat.add_zero]
  occupied := by
    have less := h.filled.occupied_remove h.vacant removed
    have before := h.occupied
    rw [issued_extend, removed_extend]
    simp only [extend, Exchange.issued?, Exchange.removed?, Option.toList, List.nil_append,
      List.length_append, List.length_singleton]
    omega

theorem Mirrors.relink (h : s.Mirrors) (issued : e.issued? = none) (removed : e.removed? = none)
    (note : e.note = id) (relinks : Relinks s.table u) (occupied : u.occupied = s.table.occupied) :
    (s.extend e u).Mirrors where
  vacant := h.vacant.relink relinks
  filled := h.filled.relink relinks occupied
  bare := by
    intro x
    rw [notes_extend, note]
    exact (relinks.bare_eq x).trans (h.bare x)
  holds := by
    intro x
    rw [holds_extend, issued, removed, ← h.holds]
    change (u.bare x).isSome ↔ _
    rw [relinks.bare_eq]
    simp
  generation := by
    intro i
    refine (relinks.generationAt_eq i).trans ?_
    rw [h.generation, vacations, vacations, removed_extend, removed]
    rfl
  occupied := by
    rw [issued_extend, removed_extend, issued, removed]
    exact (congrArg (· + _) occupied).trans h.occupied

theorem Mirrors.extend (h : s.Mirrors) (step : Served s.table e u) : (s.extend e u).Mirrors := by
  cases step with
  | stored inserted => exact h.store inserted
  | altered found f => exact h.alter found f
  | removed removed => exact h.remove removed
  | other issued removed note relinks occupied =>
    exact h.relink issued removed note relinks occupied

/-- No cell is vacated so often that its generations come round again. -/
def Unrepeated (s : Session) : Prop := ∀ i, s.vacations i < wordBound

/-- The references given out differ, and each finds its record or names a generation that is over.
-/
structure Fresh (s : Session) : Prop where
  nodup : s.issued.Nodup
  spent : ∀ x ∈ s.issued, (s.table.bare x).isSome ∨ x.generation < s.vacations x.index

theorem vacations_le_extend (s : Session) (e : Exchange) (u : Table) (i : Nat) :
    s.vacations i ≤ (s.extend e u).vacations i := by
  rw [vacations, vacations, removed_extend, List.countP_append]
  exact Nat.le_add_left _ _

theorem Unrepeated.of_extend (h : (s.extend e u).Unrepeated) : s.Unrepeated :=
  fun i => Nat.lt_of_le_of_lt (s.vacations_le_extend e u i) (h i)

theorem Mirrors.generation_eq (h : s.Mirrors) (small : s.Unrepeated)
    (found : s.table.bare x ≠ none) : x.generation = s.vacations x.index := by
  obtain ⟨record, found⟩ := Option.ne_none_iff_exists'.mp found
  obtain ⟨stored, found, _⟩ := bare_eq_some_iff.mp found
  rw [← generationAt_of_find? found, h.generation, Nat.mod_eq_of_lt (small x.index)]

theorem Fresh.of_not_issued (fresh : s.Fresh) (issued : e.issued? = none)
    (kept : ∀ x, (s.table.bare x).isSome →
      (u.bare x).isSome ∨ x.generation < (s.extend e u).vacations x.index) :
    (s.extend e u).Fresh where
  nodup := by
    rw [issued_extend, issued]
    exact fresh.nodup
  spent := by
    intro x given
    rw [issued_extend, issued] at given
    rcases fresh.spent x given with there | past
    · exact kept x there
    · exact .inr (Nat.lt_of_lt_of_le past (s.vacations_le_extend e u _))

theorem Fresh.store (h : s.Mirrors) (fresh : s.Fresh)
    (inserted : s.table.insert grant record = .ok (r, u))
    (small : (s.extend ⟨.insert grant record, .stored (.ok r)⟩ u).Unrepeated) :
    (s.extend ⟨.insert grant record, .stored (.ok r)⟩ u).Fresh where
  nodup := by
    have spec := (insert_spec h.vacant inserted).1
    have stored : u.bare r ≠ none := by
      rw [spec.bare_eq, if_pos rfl]
      exact Option.some_ne_none _
    have current : r.generation = s.vacations r.index :=
      (h.store inserted).generation_eq small stored
    rw [issued_extend]
    refine List.nodup_cons.mpr ⟨fun given => ?_, fresh.nodup⟩
    rcases fresh.spent r given with there | past
    · rw [spec.bare_eq_none] at there
      cases there
    · exact Nat.ne_of_lt past current
  spent := by
    intro x given
    rw [issued_extend] at given
    have later : (u.bare x).isSome ↔ x = r ∨ (s.table.bare x).isSome := by
      rw [(insert_spec h.vacant inserted).1.bare_eq]
      by_cases hx : x = r <;> simp [hx]
    rcases List.mem_cons.mp given with new | old
    · exact .inl (later.mpr (.inl new))
    · exact (fresh.spent x old).imp_left fun there => later.mpr (.inr there)

theorem Fresh.extend (h : s.Mirrors) (fresh : s.Fresh) (step : Served s.table e u)
    (small : (s.extend e u).Unrepeated) : (s.extend e u).Fresh := by
  cases step with
  | stored inserted => exact fresh.store h inserted small
  | @altered r record found f =>
    refine fresh.of_not_issued rfl fun x there => .inl ?_
    rw [bare_modifyAt_of_find? found]
    by_cases hx : x = r
    · rw [if_pos hx]
      rfl
    · rw [if_neg hx]
      exact there
  | @removed r record u removed =>
    refine fresh.of_not_issued rfl fun x there => ?_
    by_cases hx : x = r
    · have current := h.generation_eq small.of_extend (Option.isSome_iff_ne_none.mp there)
      rw [vacations, removed_extend]
      subst hx
      refine .inr (current ▸ ?_)
      simp [Exchange.removed?, vacations]
    · rw [(remove_spec h.vacant removed).1.bare_eq, if_neg hx]
      exact .inl there
  | other issued _ _ relinks _ =>
    refine fresh.of_not_issued issued fun x there => .inl ?_
    rw [relinks.bare_eq]
    exact there

theorem fresh_start : start.Fresh :=
  ⟨List.nodup_nil, fun _ given => absurd given List.not_mem_nil⟩

/-- What every exchange keeps, every sequence of requests keeps. -/
theorem Mirrors.foldl (h : s.Mirrors) (fresh : s.Unrepeated → s.Fresh) (requests : List Request) :
    (requests.foldl serve s).Mirrors ∧
      ((requests.foldl serve s).Unrepeated → (requests.foldl serve s).Fresh) := by
  induction requests generalizing s with
  | nil => exact ⟨h, fresh⟩
  | cons request requests ih =>
    have step := s.table.served request
    exact ih (h.extend step) fun small => Fresh.extend h (fresh small.of_extend) step small

/-- The table is a map from references to records, and its keys are not used twice. -/
structure Refines (s : Session) : Prop where
  distinct : s.Unrepeated → s.issued.Nodup
  held : ∀ x, s.Holds x → ∃ stored record,
    s.notes x = some stored ∧ record.core = stored.core ∧ s.table.Finds x record
  dangling : ∀ x, ¬ s.Holds x → s.notes x = none ∧ s.table.Refuses x
  room : s.table.occupied < wordBound → ∀ grant, grant.covers cellSize = true →
    ∀ record, ∃ r, (s.table.serve (.insert grant record)).1 = .stored (.ok r)
  occupied : s.table.occupied + s.removed.length = s.issued.length
  vacant : s.table.free.Nodup ∧
    ∀ i, i ∈ s.table.free ↔ i < s.table.cells.size ∧ s.table.recordAt? i = none

theorem Mirrors.held (h : s.Mirrors) (holds : s.Holds x) : ∃ stored record,
    s.notes x = some stored ∧ record.core = stored.core ∧ s.table.Finds x record := by
  obtain ⟨shown, found⟩ := Option.isSome_iff_exists.mp ((h.holds x).mpr holds)
  obtain ⟨stored, noted, same⟩ := Option.map_eq_some_iff.mp ((h.bare x).symm.trans found)
  obtain ⟨record, found, core⟩ := bare_eq_some_iff.mp found
  exact ⟨stored, record, noted, core.trans same.symm, finds_of_find? found⟩

theorem Mirrors.dangling (h : s.Mirrors) (holds : ¬ s.Holds x) :
    s.notes x = none ∧ s.table.Refuses x := by
  have gone : s.table.bare x = none := by
    rw [← Option.not_isSome_iff_eq_none, h.holds]
    exact holds
  exact ⟨Option.map_eq_none_iff.mp ((h.bare x).symm.trans gone),
    refuses_of_find? (Option.map_eq_none_iff.mp gone)⟩

theorem Mirrors.room (h : s.Mirrors) (room : s.table.occupied < wordBound) (grant : Grant)
    (granted : grant.covers cellSize = true) (record : Record) :
    ∃ r, (s.table.serve (.insert grant record)).1 = .stored (.ok r) := by
  obtain ⟨r, u, inserted⟩ := h.filled.insert_eq_ok room granted record
  exact ⟨r, by rw [Table.serve, inserted]⟩

/-- After any requests whatever, the table answers as the map of what has been stored. -/
theorem refinement (requests : List Request) : (of requests).Refines := by
  obtain ⟨mirrors, fresh⟩ := mirrors_start.foldl (fun _ => fresh_start) requests
  exact {
    distinct := fun small => (fresh small).nodup
    held := fun x => mirrors.held
    dangling := fun x => mirrors.dangling
    room := mirrors.room
    occupied := mirrors.occupied
    vacant := ⟨mirrors.vacant.nodup, mirrors.vacant.mem_free⟩ }

/-- A record is removed while it is on the list, and its cell taken by another. The first reference
is used once more after that, and one that was never given out. -/
def reuse : List Request :=
  let header := Header.fresh rootScope ⟨rootScope, 0⟩
  let grant := Grants.ample 0
  [.insert grant ⟨header, .str [1]⟩, .attach ⟨0, 0⟩, .remove ⟨0, 0⟩,
    .insert grant ⟨header, .str [2]⟩, .alter ⟨0, 1⟩ (Record.setPayload (.str [3])),
    .remove ⟨0, 0⟩, .detach ⟨7, 7⟩]

theorem refinement_reuse : (of reuse).Unrepeated ∧ (of reuse).issued = [⟨0, 1⟩, ⟨0, 0⟩] ∧
    (of reuse).issued.Nodup ∧ (of reuse).table.occupied + 1 = 2 := by
  have few : (of reuse).removed.length < wordBound := by decide
  have small : (of reuse).Unrepeated := fun i => Nat.lt_of_le_of_lt List.countP_le_length few
  exact ⟨small, rfl, (refinement reuse).distinct small, (refinement reuse).occupied⟩

end Session

end ScopedHeap.Table
