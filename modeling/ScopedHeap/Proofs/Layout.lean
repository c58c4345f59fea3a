import ScopedHeap.Proofs.Contents

/-!
# The layout of containers

Every list in the table, be it a payload of its own, one half of a dict or the elements of a set,
has slots of one kind, at most as many as it has room for, and room for a power of two times the
slots that it was made from. The list limit bounds the room, but never below one slot.

A dict has a value for every key and the same room for both, with one exception. An entry needs two
grants of memory, and when the second is refused, nothing takes the first one back: the keys are
left with twice the room of the values.

The payload of a record can be moved into another one. `History.origins` follows it, so that a list
is compared with the slots that it was made from, wherever it has come to be.
-/
namespace ScopedHeap

open Context

/-- A list that was made from `made` slots and has grown under a limit since. -/
structure SlotList.Fits (limit made : Nat) (l : SlotList) : Prop where
  kinds : ∀ v ∈ l.items, v.kind = l.kind
  roomy : 1 ≤ l.capacity
  length_le : l.length ≤ l.capacity
  capacity_le : l.capacity ≤ max 1 limit
  doublings : ∃ k, l.capacity = max 1 made * 2 ^ k

namespace SlotList

variable {l k : SlotList} {limit made i : Nat} {v : Slot}

theorem kind_eq_of_checkKind (h : l.checkKind v = .ok ()) : v.kind = l.kind := by
  unfold checkKind at h
  split at h
  · assumption
  · cases h

theorem fits_ofSlots {grant : Grant} {kind : SlotKind} {slots : List Slot}
    (h : ofSlots limit grant kind slots = .ok l) : l.Fits limit slots.length := by
  obtain rfl := ofSlots_eq_ok h
  unfold ofSlots at h
  split at h
  · cases h
  · rename_i short
    split at h
    · cases h
    · rename_i none
      refine ⟨?_, ?_, ?_, ?_, 0, ?_⟩
      · intro v hv
        simpa using List.find?_eq_none.mp none v hv
      · exact Nat.le_max_right _ _
      · exact Nat.le_max_left _ _
      · show max slots.length 1 ≤ max 1 limit
        omega
      · show max slots.length 1 = max 1 slots.length * 2 ^ 0
        omega

theorem Fits.grow (h : l.Fits limit made) (grows : l.Grows limit k) :
    k.Fits limit made ∧ k.length < k.capacity := by
  rcases grows with ⟨room, rfl⟩ | ⟨full, small, _, rfl⟩
  · exact ⟨h, room⟩
  · obtain ⟨n, capacity⟩ := h.doublings
    have roomy := h.roomy
    have length := h.length_le
    refine ⟨⟨h.kinds, ?_, ?_, ?_, n + 1, ?_⟩, ?_⟩
    · show 1 ≤ l.capacity * 2
      omega
    · show l.length ≤ l.capacity * 2
      omega
    · show l.capacity * 2 ≤ max 1 limit
      omega
    · show l.capacity * 2 = max 1 made * 2 ^ (n + 1)
      rw [capacity, Nat.pow_succ, Nat.mul_assoc]
    · show l.length < l.capacity * 2
      omega

theorem Fits.push (h : l.Fits limit made) (room : l.length < l.capacity) (kind : v.kind = l.kind) :
    (l.push v).Fits limit made := by
  refine ⟨?_, h.roomy, ?_, h.capacity_le, h.doublings⟩
  · intro u hu
    rcases List.mem_append.mp hu with hu | hu
    · exact h.kinds u hu
    · rw [List.mem_singleton.mp hu]
      exact kind
  · rw [length, SlotList.push, List.length_append]
    exact room

theorem Fits.pop (h : l.Fits limit made) (popped : l.pop = .ok (v, k)) : k.Fits limit made := by
  have items := items_pop popped
  have same : k.kind = l.kind ∧ k.capacity = l.capacity := by
    unfold SlotList.pop at popped
    split at popped
    · cases popped
      exact ⟨rfl, rfl⟩
    · cases popped
  refine ⟨?_, same.2 ▸ h.roomy, ?_, same.2 ▸ h.capacity_le, same.2 ▸ h.doublings⟩
  · intro u hu
    rw [same.1]
    exact h.kinds u (by rw [items]; exact List.mem_append_left _ hu)
  · have shorter := h.length_le
    rw [length, items, List.length_append] at shorter
    rw [same.2]
    exact Nat.le_of_succ_le shorter

theorem Fits.replace (h : l.Fits limit made) (kind : v.kind = l.kind) (i : Nat) :
    (l.replace i v).Fits limit made := by
  refine ⟨?_, h.roomy, ?_, h.capacity_le, h.doublings⟩
  · intro u hu
    rcases List.mem_or_eq_of_mem_set hu with hu | rfl
    · exact h.kinds u hu
    · exact kind
  · rw [length, SlotList.replace, List.length_set]
    exact h.length_le

end SlotList

def Payload.lists : Payload → List SlotList
  | .raw _ | .str _ | .text _ => []
  | .list l => [l]
  | .dict d => [d.keys, d.values]
  | .set s => [s.elements]

def Payload.Fits (limit made : Nat) (p : Payload) : Prop := ∀ l ∈ p.lists, l.Fits limit made

namespace Payload

variable {limit made : Nat}

theorem fits_of_plain {p : Payload} (plain : p.isContainer = false) : p.Fits limit made := by
  cases p with
  | raw | str | text => exact fun l hl => absurd hl List.not_mem_nil
  | list | dict | set => cases plain

theorem fits_list {l : SlotList} : (Payload.list l).Fits limit made ↔ l.Fits limit made :=
  List.forall_mem_singleton

theorem fits_set {s : SlotSet} : (Payload.set s).Fits limit made ↔ s.elements.Fits limit made :=
  List.forall_mem_singleton

theorem fits_dict {d : SlotDict} : (Payload.dict d).Fits limit made ↔
    d.keys.Fits limit made ∧ d.values.Fits limit made := by
  rw [Fits, lists, List.forall_mem_cons, List.forall_mem_singleton]

end Payload

namespace Update

variable {c : Change} {cx : Context} {grants : Grants} {a : Except Error Effect} {x : Ref}
  {p q : Payload} {limit : Nat}

def made : Change → Nat
  | .newList _ slots | .newSet _ slots => slots.length
  | .newDict _ _ keys _ => keys.length
  | _ => 0

/-- The slots from which the lists in each record were made, after a change. -/
def origins (c : Change) (a : Except Error Effect) (o : Ref → Nat) (x : Ref) : Nat :=
  (c.source a x).elim c.made o

theorem Makes.fits (h : Makes limit c p) : p.Fits limit c.made := by
  cases h with
  | plain plain => exact Payload.fits_of_plain plain
  | list laid => exact Payload.fits_list.mpr (SlotList.fits_ofSlots laid)
  | set laid => exact Payload.fits_set.mpr (SlotList.fits_ofSlots laid)
  | dict laid =>
    obtain ⟨same, keys, values⟩ := SlotDict.ofSlots_eq_ok laid
    have values := SlotList.fits_ofSlots values
    rw [← same] at values
    exact Payload.fits_dict.mpr ⟨SlotList.fits_ofSlots keys, values⟩

theorem Reshapes.fits {made : Nat} (h : c.Reshapes cx x q p) (before : q.Fits cx.listLimit made) :
    p.Fits cx.listLimit made := by
  cases h with
  | write => exact Payload.fits_of_plain rfl
  | grow grows => exact Payload.fits_list.mpr ((Payload.fits_list.mp before).grow grows).1
  | push fits grows =>
    obtain ⟨grown, room⟩ := (Payload.fits_list.mp before).grow grows
    refine Payload.fits_list.mpr (grown.push room ?_)
    rw [grows.kind]
    exact SlotList.kind_eq_of_checkKind fits
  | pop popped => exact Payload.fits_list.mpr ((Payload.fits_list.mp before).pop popped)
  | set fits position =>
    exact Payload.fits_list.mpr
      ((Payload.fits_list.mp before).replace (SlotList.kind_eq_of_checkKind fits) _)
  | replace fits found =>
    obtain ⟨keys, values⟩ := Payload.fits_dict.mp before
    exact Payload.fits_dict.mpr
      ⟨keys, values.replace (SlotList.kind_eq_of_checkKind fits) _⟩
  | widen grows =>
    obtain ⟨keys, values⟩ := Payload.fits_dict.mp before
    exact Payload.fits_dict.mpr ⟨(keys.grow grows.1).1, (values.grow grows.2).1⟩
  | append fits absent grows =>
    obtain ⟨keys, values⟩ := Payload.fits_dict.mp before
    obtain ⟨keys, keyRoom⟩ := keys.grow grows.1
    obtain ⟨values, valueRoom⟩ := values.grow grows.2
    -- a search begins with the kind of the key
    obtain ⟨_, keyFits, _⟩ := bind_eq_ok.mp absent
    refine Payload.fits_dict.mpr ⟨keys.push keyRoom ?_, values.push valueRoom ?_⟩
    · rw [grows.1.kind]
      exact SlotList.kind_eq_of_checkKind keyFits
    · rw [grows.2.kind]
      exact SlotList.kind_eq_of_checkKind fits

theorem Descends.fits {o : Ref → Nat} (h : c.Descends cx grants a x p)
    (before : ∀ y q, cx.table.payload? y = some q → q.Fits cx.listLimit (o y)) :
    p.Fits cx.listLimit (c.origins a o x) := by
  cases h with
  | moved source found =>
    rw [origins, source]
    exact before _ p found
  | reshaped source found shape =>
    rw [origins, source]
    exact shape.fits (before x _ found)
  | starved change outcome found starves after =>
    obtain ⟨keys, values⟩ := Payload.fits_dict.mp (before x _ found)
    rw [change, outcome, after, starves.result]
    exact Payload.fits_dict.mpr ⟨(keys.grow starves.keys).1, values⟩
  | made source absent made =>
    rw [origins, source]
    exact made.fits
  | overwritten exchanges plain => exact Payload.fits_of_plain plain

/-- Where the two lists of a dict have different room, they had before, or the memory for one of
them has been refused. -/
theorem Descends.uneven {d : SlotDict} (h : c.Descends cx grants a x (.dict d)) (sound : cx.Sound)
    (uneven : d.keys.capacity ≠ d.values.capacity) :
    (∃ y e, cx.table.payload? y = some (.dict e) ∧ e.keys.capacity ≠ e.values.capacity) ∨
      ∃ key v bytes, c = .dictInsert x key v ∧ grants.Refuses bytes ∧
        a = .error (.outOfMemory bytes) := by
  cases h with
  | moved source found => exact Or.inl ⟨_, d, found, uneven⟩
  | reshaped source found shape =>
    cases shape with
    | replace fits present => exact Or.inl ⟨x, _, found, uneven⟩
    | widen grows =>
      have grown := SlotDict.Paired.grow (sound.paired found) grows
      exact absurd grown.2.1 uneven
    | append fits absent grows =>
      have grown := SlotDict.Paired.grow (sound.paired found) grows
      exact absurd grown.2.1 uneven
  | starved change outcome found starves after =>
    obtain ⟨bytes, refused, rfl⟩ := starves.refused
    exact Or.inr ⟨_, _, bytes, change, refused, outcome⟩
  | made source absent made =>
    cases made with
    | plain plain => cases plain
    | dict laid => exact absurd (SlotDict.capacity_ofSlots laid) uneven
  | overwritten exchanges plain => cases plain

end Update

namespace Context

variable {cx cx' : Context} {d : Deed} {ds : List Deed}

theorem Move.settings_eq (move : Move cx d cx') : cx'.settings = cx.settings := by
  cases move <;> rfl

theorem Path.settings_eq (path : Path cx ds cx') : cx'.settings = cx.settings := by
  induction path with
  | refl => rfl
  | move first _ ih => rw [ih, first.settings_eq]

end Context

theorem SlotList.slotAt_natCast (l : SlotList) (i : Nat) :
    l.slotAt i = l.items[i]?.elim (.error (.indexOutOfRange i l.length)) .ok := by
  have nonneg : ¬ (i : Int) < 0 := by omega
  have within : (0 ≤ (i : Int) ∧ (i : Int) < l.length) ↔ i < l.length := by omega
  rw [slotAt, position]
  simp only [if_neg nonneg, within, Int.toNat_natCast]
  by_cases lt : i < l.length
  · obtain ⟨v, hv⟩ : ∃ v, l.items[i]? = some v := ⟨_, List.getElem?_eq_getElem lt⟩
    rw [if_pos lt, hv]
    refine bind_eq_ok.mpr ⟨i, rfl, ?_⟩
    rw [hv]
  · rw [if_neg lt, List.getElem?_eq_none (Nat.le_of_not_lt lt)]
    rfl

/-- Errors that tell of a place or a key which is not there. -/
def Error.isMissing : Error → Bool
  | indexOutOfRange _ _ | keyNotFound => true
  | _ => false

namespace Table

variable {t : Table} {e : Error}

theorem find_ne_missing (missing : e.isMissing = true) (r : Ref) : t.find r ≠ .error e := by
  unfold find
  rintro h
  split at h
  · cases h
  · cases h
    cases missing

theorem contentEq_ne_missing (missing : e.isMissing = true) (kind : SlotKind) (a b : Payload) :
    contentEq kind a b ≠ .error e := by
  rintro h
  unfold contentEq at h
  split at h <;> split at h <;> cases h <;> cases missing

theorem refEq_ne_missing (missing : e.isMissing = true) (kind : SlotKind) (a b : Option Ref) :
    t.refEq kind a b ≠ .error e := by
  intro h
  unfold refEq at h
  split at h
  · cases h
  · split at h
    · cases h
    · rcases bind_eq_error.mp h with h | ⟨left, _, h⟩
      · exact find_ne_missing missing _ h
      · rcases bind_eq_error.mp h with h | ⟨right, _, h⟩
        · exact find_ne_missing missing _ h
        · exact contentEq_ne_missing missing kind _ _ h
  · cases h

theorem slotEq_ne_missing (missing : e.isMissing = true) (a b : Slot) :
    t.slotEq a b ≠ .error e := by
  intro h
  unfold slotEq at h
  split at h
  · cases h
  · cases h
  · cases h
  · cases h
  · exact refEq_ne_missing missing _ _ _ h
  · exact refEq_ne_missing missing _ _ _ h
  · exact refEq_ne_missing missing _ _ _ h
  · cases h
    cases missing

theorem scan_ne_missing (missing : e.isMissing = true) (v : Slot) (items : List Slot) :
    t.scan v items ≠ .error e := by
  induction items with
  | nil =>
    intro h
    cases h
  | cons item items ih =>
    intro h
    rcases bind_eq_error.mp h with h | ⟨same, _, h⟩
    · exact slotEq_ne_missing missing _ _ h
    · cases same with
      | true => cases h
      | false =>
        rcases bind_eq_error.mp h with h | ⟨position, _, h⟩
        · exact ih h
        · cases h

theorem search_ne_missing (missing : e.isMissing = true) (l : SlotList) (v : Slot) :
    t.search l v ≠ .error e := by
  intro h
  rcases bind_eq_error.mp h with h | ⟨_, _, h⟩
  · unfold SlotList.checkKind at h
    split at h
    · cases h
    · cases h
      cases missing
  · exact scan_ne_missing missing v l.items h

end Table

namespace Context

variable {cx : Context}

end Context

/-- Some operation is refused so many bytes, although addresses would reach. -/
def Memory.Refuses (memory : Memory) (bytes : Nat) : Prop := ∃ n, (memory n).Refuses bytes

namespace Machine

variable {m : Machine} {memory : Memory}

/-- The answers that the machine is still to get are the last of those in `memory`. -/
def Draws (m : Machine) (memory : Memory) : Prop := ∃ k, ∀ n, m.memory n = memory (n + k)

namespace Draws

theorem settle (h : m.Draws memory) (w : Workspace) : (m.settle w).Draws memory := by
  obtain ⟨k, same⟩ := h
  refine ⟨k + 1, fun n => ?_⟩
  show m.memory (n + 1) = _
  rw [same, Nat.add_right_comm, Nat.add_assoc]

theorem act {α : Type} {x : Act α} {onError : Machine → Error → Machine}
    {onValue : Machine → α → Machine} (h : m.Draws memory)
    (failed : ∀ m e, Draws m memory → (onError m e).Draws memory)
    (passed : ∀ m a, Draws m memory → (onValue m a).Draws memory) :
    (m.act x onError onValue).Draws memory := by
  unfold Machine.act
  cases x m.workspace with
  | ok a w => exact passed _ a (h.settle w)
  | error e w => exact failed _ e (h.settle w)

theorem tellAt (h : m.Draws memory) (site : Site) (e : Event) : (m.tellAt site e).Draws memory := by
  cases site with
  | program | hook => exact h

theorem fail (h : m.Draws memory) (reply : Reply) (e : Error) : (m.fail reply e).Draws memory := by
  obtain ⟨site, policy, bind⟩ := reply
  cases policy with
  | checked | strict => exact h

theorem afterExit (h : m.Draws memory) (after : AfterExit) (outcome : Except Error Unit) :
    (m.afterExit after outcome).Draws memory := by
  cases outcome with
  | ok =>
    cases after with
    | answer | unwind => exact h
    | blockEnd site id =>
      cases site with
      | program | hook => exact h
  | error e =>
    cases after with
    | answer reply => exact h.fail reply e
    | blockEnd | unwind => exact h

theorem perform (h : m.Draws memory) (site : Site) (c : Command) :
    (m.perform site c).Draws memory := by
  unfold Machine.perform
  cases c with
  | ask q policy bind =>
    dsimp only
    cases m.bindings.query q with
    | error f => exact h
    | ok question =>
      dsimp only
      cases m.context.answer question with
      | ok answer => exact h
      | error e => exact h.fail _ e
  | update u policy bind =>
    dsimp only
    cases m.bindings.update u with
    | error f => exact h
    | ok change => exact h.act (fun _ e h => h.fail _ e) fun _ _ h => h
  | popScope policy =>
    show (if m.context.current = rootScope then _ else _ : Machine).Draws memory
    split
    · exact h.fail _ _
    · exact h
  | setHook target name script =>
    dsimp only
    cases m.bindings.record target with
    | error f => exact h
    | ok r => exact h.act (fun _ _ h => h) fun _ _ h => h
  | block body => exact h.act (fun _ _ h => h) fun _ _ h => h.tellAt site _

theorem execute (h : m.Draws memory) (t : Task) : (m.execute t).Draws memory := by
  unfold Machine.execute
  cases t with
  | perform site c => exact h.perform site c
  | runScript | finish => exact h
  | releaseRefs refs =>
    cases refs with
    | nil => exact h
    | cons => exact h.act (fun _ _ h => h) fun _ _ h => h
  | bury | sweep => exact h.act (fun _ _ h => h) fun _ _ h => h
  | exitScope scope drained after =>
    refine h.act (fun _ _ h => h.afterExit after _) fun m next h => ?_
    cases next with
    | some doomed => exact h
    | none => exact h.act (fun _ _ h => h.afterExit after _) fun _ _ h => h.afterExit after _
  | leaveBlock site id =>
    have told := h.tellAt site .blockClosing
    dsimp only [Machine.leaveBlock]
    split
    · exact told
    · split
      · exact told
      · exact told
  | unwind =>
    dsimp only
    split
    · exact h
    · exact h
  | drain =>
    refine h.act (fun _ _ h => h) fun m next h => ?_
    cases next with
    | some doomed => exact h
    | none => exact h

theorem step (h : m.Draws memory) : m.step.Draws memory := by
  rcases step_cases m with same | ⟨running, t, rest, agenda⟩
  · rw [same]
    exact h
  · rw [step_eq running agenda]
    exact execute (m := { m with agenda := rest }) h t

end Draws

end Machine

namespace History

variable (h : History)

theorem settings_eq (n : Nat) : (h.state n).context.settings = h.settings := by
  induction n with
  | zero => rfl
  | succ n ih =>
    obtain ⟨ds, path, _⟩ := h.path n
    rw [path.settings_eq, ih]

def origins : Nat → Ref → Nat
  | 0 => fun _ => 0
  | n + 1 => (h.change? n).elim (origins n) fun c =>
    c.origins (c.outcome (h.state n).workspace) (origins n)

theorem fits (n : Nat) (x : Ref) (p : Payload)
    (found : (h.state n).context.table.payload? x = some p) :
    p.Fits h.settings.listLimit (h.origins n x) := by
  induction n generalizing x p with
  | zero => exact Payload.fits_of_plain (Context.isContainer_new found)
  | succ n ih =>
    rw [origins]
    cases change : h.change? n with
    | none => exact ih x p (h.inherits change x p found)
    | some c =>
      have limit : (h.state n).context.listLimit = h.settings.listLimit :=
        congrArg Settings.listLimit (h.settings_eq n)
      rw [← limit] at ih ⊢
      exact (h.descended change x p found).fits ih

/-- A dict could not take in an entry, since a request for memory was refused. -/
def RunsOut (n : Nat) : Prop :=
  ∃ r key v bytes, h.change? n = some (.dictInsert r key v) ∧ h.memory.Refuses bytes ∧
    Update.outcome (.dictInsert r key v) (h.state n).workspace = .error (.outOfMemory bytes)

/-- A list of one slot grows and is moved into a record that was made untyped. A dict of one entry
grows, and nothing is refused to it. -/
def transfer : History where
  settings := { maxListLen := 5 }
  memory := .ample
  program := [.update (.newList .int [.int 1]) .strict none,
    .update (.listPush (.ref ⟨2, 0⟩) (.int 2)) .strict none,
    .update (.allocate 80 true) .strict none,
    .update (.swapPayloads (.ref ⟨3, 0⟩) (.ref ⟨2, 0⟩)) .strict none,
    .update (.newDict .int .int [.int 1] [.int 1]) .strict none,
    .update (.dictInsert (.ref ⟨4, 0⟩) (.int 2) (.int 2)) .strict none]
  closing := none
  idle := by
    intro n hn
    cases hn

/-- The second entry of a dict finds memory for its key and none for its value. -/
def shortage : History where
  settings := {}
  memory := fun n k _ => n != 2 || k != 1
  program := [.update (.newDict .int .int [] []) .strict none,
    .update (.dictInsert (.ref ⟨2, 0⟩) (.int 1) (.int 1)) .strict none,
    .update (.dictInsert (.ref ⟨2, 0⟩) (.int 2) (.int 2)) .strict none]
  closing := none
  idle := by
    intro n hn
    cases hn

/-- No insertion takes back what the keys have got, so the exception is a real one. -/
theorem uneven_shortage :
    (shortage.record? 5 ⟨2, 0⟩).map Record.payload =
      some (.dict ⟨⟨.int, [.int 1], 2⟩, ⟨.int, [.int 1], 1⟩⟩) ∧ shortage.RunsOut 4 := by
  refine ⟨rfl, ⟨2, 0⟩, .int 2, .int 2, 32, rfl, ⟨2, ?_, 1, rfl⟩, rfl⟩
  decide

end History

end ScopedHeap
