import Mathlib.Data.List.Range
import ScopedHeap.Proofs.Levels

/-!
# A stack of queues whose levels are told apart for ever

A client of the stack puts levels on and takes them off, defers records and asks for the next one.
Positions are used again and again, serial numbers never: what a level is named by (`Level.home`) is
the name of no other level of the run. So the answer to a deferral tells whether the level of that
home is still there (`Remains`), and what has been deferred to a level is given back by that level,
in the order in which it came (`Settled`).
-/
namespace ScopedHeap

/-- The records that wait on a level, each under the name of the level. -/
def Level.entries (level : Level) : List (Home × Ref) := level.queue.map (level.home, ·)

theorem Level.entries_enqueue (level : Level) (r : Ref) :
    (ScopeStack.enqueue r level).entries = level.entries ++ [(level.home, r)] := by
  simp [entries, ScopeStack.enqueue, home]

namespace ScopeStack

inductive Request where
  | push
  | pop
  | defer (home : Home) (r : Ref)
  | nextPending

inductive Response where
  | entered (scope : ScopeId)
  | left (outcome : Except Error Level)
  | deferred (atHome : Bool)
  | taken (r : Option Ref)

/-- The response to a request, and the stack after it. -/
def serve (s : ScopeStack) : Request → Response × ScopeStack
  | .push => (.entered s.push.current, s.push)
  | .pop =>
    match s.pop with
    | .ok (level, u) => (.left (.ok level), u)
    | .error e => (.left (.error e), s)
  | .defer home r => (.deferred (s.defer home r).1, (s.defer home r).2)
  | .nextPending => (.taken s.nextPending.1, s.nextPending.2)

/-- A request and what comes of it. -/
structure Exchange where
  before : ScopeStack
  request : Request
  response : Response
  after : ScopeStack

def exchange (s : ScopeStack) (request : Request) : Exchange :=
  ⟨s, request, (s.serve request).1, (s.serve request).2⟩

def after (s : ScopeStack) (requests : List Request) : ScopeStack :=
  requests.foldl (fun s request => (s.exchange request).after) s

def exchanges (s : ScopeStack) : List Request → List Exchange
  | [] => []
  | request :: requests => s.exchange request :: (s.exchange request).after.exchanges requests

variable {s u : ScopeStack} {home : Home} {r : Ref} {request : Request}
  {requests earlier later : List Request} {e : Exchange}

theorem after_concat (s : ScopeStack) (requests : List Request) (request : Request) :
    s.after (requests ++ [request]) = ((s.after requests).exchange request).after := by
  simp [after]

theorem exchanges_concat (s : ScopeStack) (requests : List Request) (request : Request) :
    s.exchanges (requests ++ [request]) =
      s.exchanges requests ++ [(s.after requests).exchange request] := by
  induction requests generalizing s with
  | nil => rfl
  | cons first requests ih => simp [exchanges, ih, after]

/-- All that can happen in an exchange. -/
inductive Served : Exchange → Prop
  | entered (s : ScopeStack) : Served ⟨s, .push, .entered s.push.current, s.push⟩
  | left {s u : ScopeStack} (popped : s.pop = .ok (s.active, u)) :
    Served ⟨s, .pop, .left (.ok s.active), u⟩
  | refused (s : ScopeStack) (e : Error) : Served ⟨s, .pop, .left (.error e), s⟩
  | deferred (s : ScopeStack) (home : Home) (r : Ref) :
    Served ⟨s, .defer home r, .deferred (s.defer home r).1, (s.defer home r).2⟩
  | taken {s : ScopeStack} {r : Ref} {rest : List Ref} (queue : s.active.queue = r :: rest) :
    Served ⟨s, .nextPending, .taken (some r), { s with active := { s.active with queue := rest } }⟩
  | idle (s : ScopeStack) : Served ⟨s, .nextPending, .taken none, s⟩

theorem served (s : ScopeStack) (request : Request) : Served (s.exchange request) := by
  cases request with
  | push => exact .entered s
  | pop =>
    cases popped : s.pop with
    | ok taken =>
      obtain ⟨level, u⟩ := taken
      obtain ⟨rfl, _⟩ := pop_spec popped
      simpa [exchange, serve, popped] using Served.left popped
    | error e => simpa [exchange, serve, popped] using Served.refused s e
  | defer home r => exact .deferred s home r
  | nextPending =>
    cases queue : s.active.queue with
    | nil => simpa [exchange, serve, nextPending, queue] using Served.idle s
    | cons r rest => simpa [exchange, serve, nextPending_cons queue] using Served.taken queue

def homes (s : ScopeStack) : List Home := s.levels.map Level.home

theorem length_homes (s : ScopeStack) : s.homes.length = s.depth := by
  simp [homes, length_levels]

theorem homes_eq (s : ScopeStack) : s.homes = s.outer.reverse.map Level.home ++ [s.activeHome] := by
  simp [homes, levels_eq, Level.home, activeHome]

theorem getElem?_homes (s : ScopeStack) : s.homes[s.depth - 1]? = some s.activeHome := by
  simp [homes_eq, depth]

/-- What an exchange does to the names. -/
inductive Restacked (s u : ScopeStack) : Prop
  | same (homes : u.homes = s.homes) (next : u.nextSerial = s.nextSerial)
  | grown (homes : u.homes = s.homes ++ [⟨s.current + 1, s.nextSerial⟩])
      (next : u.nextSerial = s.nextSerial + 1)
  | shrunk (homes : s.homes = u.homes ++ [s.activeHome]) (next : u.nextSerial = s.nextSerial)

theorem nextSerial_defer (s : ScopeStack) (home : Home) (r : Ref) :
    (s.defer home r).2.nextSerial = s.nextSerial := by
  unfold defer
  split <;> rfl

theorem nextSerial_of_pop {level : Level} (h : s.pop = .ok (level, u)) :
    u.nextSerial = s.nextSerial := by
  unfold pop at h
  split at h
  · cases h
  · cases h
    rfl

theorem Served.restacked (h : Served e) : Restacked e.before e.after := by
  cases h with
  | entered s =>
    refine .grown ?_ rfl
    simp only [homes, levels_push, List.map_append]
    rfl
  | left popped =>
    refine .shrunk ?_ (nextSerial_of_pop popped)
    simp [homes, levels_of_pop popped, Level.home, activeHome]
  | refused | idle => exact .same rfl rfl
  | deferred s home r =>
    exact .same (Level.map_home_eq (s.extends_defer home r)) (s.nextSerial_defer home r)
  | taken => exact .same (by simp [homes_eq, activeHome]) rfl

theorem Served.numbered (h : Served e) (before : e.before.Numbered) : e.after.Numbered := by
  cases h with
  | entered => exact before.push
  | left popped => exact before.pop popped
  | refused | idle => exact before
  | deferred s home r => exact before.defer home r
  | taken => exact ⟨before.1, before.2⟩

theorem Numbered.map_id (h : s.Numbered) : s.levels.map Level.id = List.range' 1 s.depth := by
  have reversed : ∀ l, Level.Numbered l → (l.map Level.id).reverse = List.range' 1 l.length := by
    intro l
    induction l with
    | nil => simp
    | cons level rest ih =>
      intro numbered
      simp [ih numbered.2, numbered.1, List.range'_1_concat, Nat.add_comm]
  simpa [levels, depth, stack] using reversed _ h

/-- Serial numbers rise from the root up, and those still to come are greater. -/
structure Rising (s : ScopeStack) : Prop where
  serials : (s.homes.map Home.serial).Pairwise (· < ·)
  serial_lt : ∀ home ∈ s.homes, home.serial < s.nextSerial

theorem rising_root : root.Rising where
  serials := by simp [homes, levels, root]
  serial_lt := by simp [homes, levels, root, Level.home]

theorem Rising.nodup (h : s.Rising) : s.homes.Nodup :=
  List.Nodup.of_map Home.serial (h.serials.imp Nat.ne_of_lt)

theorem Rising.restacked (h : s.Rising) (k : Restacked s u) : u.Rising := by
  cases k with
  | same homes next =>
    exact ⟨by simpa only [homes] using h.serials, by simpa only [homes, next] using h.serial_lt⟩
  | grown homes next =>
    constructor
    · simpa [homes, List.pairwise_append, h.serials] using h.serial_lt
    · simp only [homes, next, List.mem_append, List.mem_singleton]
      rintro home (old | rfl)
      · exact (h.serial_lt home old).trans (Nat.lt_succ_self _)
      · exact Nat.lt_succ_self _
  | shrunk homes next =>
    constructor
    · have serials := h.serials
      rw [homes, List.map_append, List.pairwise_append] at serials
      exact serials.1
    · intro home there
      rw [next]
      exact h.serial_lt home (by simp [homes, there])

/-- The serial number has been given to a level, and that level is not there any more. -/
structure Gone (s : ScopeStack) (serial : Nat) : Prop where
  serial_ne : ∀ home ∈ s.homes, home.serial ≠ serial
  given : serial < s.nextSerial

theorem Gone.restacked {n : Nat} (h : s.Gone n) (k : Restacked s u) : u.Gone n := by
  cases k with
  | same homes next =>
    exact ⟨by simpa only [homes] using h.serial_ne, by simpa only [next] using h.given⟩
  | grown homes next =>
    constructor
    · simp only [homes, List.mem_append, List.mem_singleton]
      rintro home (old | rfl)
      · exact h.serial_ne home old
      · exact Nat.ne_of_gt h.given
    · rw [next]
      exact h.given.trans (Nat.lt_succ_self _)
  | shrunk homes next =>
    constructor
    · intro home there
      exact h.serial_ne home (by simp [homes, there])
    · rw [next]
      exact h.given

theorem Rising.gone (h : s.Rising) (homes : s.homes = u.homes ++ [s.activeHome])
    (next : u.nextSerial = s.nextSerial) : u.Gone s.activeHome.serial := by
  have serials := h.serials
  rw [homes, List.map_append, List.pairwise_append] at serials
  constructor
  · intro home there
    exact Nat.ne_of_lt (serials.2.2 _ (List.mem_map_of_mem there) _ (by simp))
  · rw [next]
    exact h.serial_lt _ (by simp [homes])

theorem rising_after (requests : List Request) : (root.after requests).Rising := by
  induction requests using List.reverseRecOn with
  | nil => exact rising_root
  | append_singleton requests request ih =>
    rw [after_concat]
    exact ih.restacked (served _ request).restacked

theorem numbered_after (requests : List Request) : (root.after requests).Numbered := by
  induction requests using List.reverseRecOn with
  | nil => exact numbered_root
  | append_singleton requests request ih =>
    rw [after_concat]
    exact (served _ request).numbered ih

def Exchange.opened (e : Exchange) : List Home :=
  match e.response with
  | .entered _ => [e.after.activeHome]
  | _ => []

def opened (requests : List Request) : List Home :=
  (root.exchanges requests).flatMap Exchange.opened

theorem opened_concat (requests : List Request) (request : Request) :
    opened (requests ++ [request]) =
      opened requests ++ ((root.after requests).exchange request).opened := by
  simp [opened, exchanges_concat]

theorem Served.serials (h : Served e) :
    e.after.nextSerial = e.before.nextSerial + e.opened.length ∧
      e.opened.map Home.serial = List.range' e.before.nextSerial e.opened.length := by
  cases h with
  | entered | refused | taken | idle => exact ⟨rfl, rfl⟩
  | left popped => exact ⟨nextSerial_of_pop popped, rfl⟩
  | deferred s home r => exact ⟨s.nextSerial_defer home r, rfl⟩

theorem serials_opened (requests : List Request) :
    (root.after requests).nextSerial = 1 + (opened requests).length ∧
      (opened requests).map Home.serial = List.range' 1 (opened requests).length := by
  induction requests using List.reverseRecOn with
  | nil => exact ⟨rfl, rfl⟩
  | append_singleton requests request ih =>
    obtain ⟨next, serials⟩ := ih
    obtain ⟨next', serials'⟩ := (served (root.after requests) request).serials
    have before : ((root.after requests).exchange request).before.nextSerial =
      1 + (opened requests).length := next
    rw [before] at next' serials'
    constructor
    · rw [after_concat, opened_concat, next', List.length_append, Nat.add_assoc]
    · rw [opened_concat, List.map_append, serials, serials', List.length_append,
        List.range'_append_1]

theorem nodup_serials_opened (requests : List Request) :
    ((root.activeHome :: opened requests).map Home.serial).Nodup := by
  have serials : (root.activeHome :: opened requests).map Home.serial =
      List.range' 0 ((opened requests).length + 1) := by
    rw [List.map_cons, (serials_opened requests).2, List.range'_succ]
    rfl
  rw [serials]
  exact List.nodup_range'

/-- The level that was active after the earlier requests has not been taken off by the later ones:
the stack has not been lower since. -/
def Remains (earlier later : List Request) : Prop :=
  ∀ between, between <+: later →
    (root.after earlier).depth ≤ (root.after (earlier ++ between)).depth

theorem remains_concat : Remains earlier (later ++ [request]) ↔ Remains earlier later ∧
    (root.after earlier).depth ≤ (root.after (earlier ++ (later ++ [request]))).depth := by
  constructor
  · intro h
    exact ⟨fun between before => h between (before.trans (List.prefix_append _ _)),
      h _ List.prefix_rfl⟩
  · rintro ⟨h, last⟩ between before
    rcases List.prefix_concat_iff.mp before with rfl | before
    · exact last
    · exact h between before

/-- A level stays in its position as long as the stack is not lower, and is gone when it gets so. -/
theorem Restacked.keeps_or_gone {d : Nat} (k : Restacked s u) (rising : s.Rising) (pos : 0 < d)
    (there : s.homes[d - 1]? = some home) :
    d ≤ u.depth ∧ u.homes[d - 1]? = some home ∨ u.depth < d ∧ u.Gone home.serial := by
  have inside := (List.getElem?_eq_some_iff.mp there).1
  have before := s.length_homes
  have after := u.length_homes
  cases k with
  | same homes =>
    rw [homes] at after ⊢
    exact .inl ⟨by omega, there⟩
  | grown homes =>
    rw [homes, List.length_append, List.length_singleton] at after
    rw [homes, List.getElem?_append_left inside]
    exact .inl ⟨by omega, there⟩
  | shrunk homes next =>
    rw [homes, List.length_append, List.length_singleton] at before inside
    by_cases high : d ≤ u.depth
    · rw [homes, List.getElem?_append_left (by omega)] at there
      exact .inl ⟨high, there⟩
    · -- the level was on top, so it is the one that is taken off
      obtain rfl : d = s.depth := by omega
      rw [getElem?_homes, Option.some.injEq] at there
      exact .inr ⟨by omega, there ▸ rising.gone homes next⟩

/-- Later on, the level that was active is where it was, or it is gone. -/
theorem remains_or_gone (earlier later : List Request) :
    (Remains earlier later ∧
      (root.after (earlier ++ later)).homes[(root.after earlier).depth - 1]? =
        some (root.after earlier).activeHome) ∨
    (¬ Remains earlier later ∧
      (root.after (earlier ++ later)).Gone (root.after earlier).activeHome.serial) := by
  induction later using List.reverseRecOn with
  | nil =>
    refine .inl ⟨fun between before => ?_, ?_⟩
    · simp [List.prefix_nil.mp before]
    · rw [List.append_nil, getElem?_homes]
  | append_singleton later request ih =>
    have step := (served (root.after (earlier ++ later)) request).restacked
    rw [remains_concat, ← List.append_assoc, after_concat]
    rcases ih with ⟨remains, there⟩ | ⟨lost, gone⟩
    · rcases step.keeps_or_gone (rising_after _) (Nat.succ_pos _) there with
        ⟨high, kept⟩ | ⟨low, gone⟩
      · exact .inl ⟨⟨remains, high⟩, kept⟩
      · exact .inr ⟨fun h => Nat.not_le_of_lt low h.2, gone⟩
    · exact .inr ⟨fun h => lost h.1, gone.restacked step⟩

/-- The level at the position of a home, or the active level if the stack is not that deep. -/
def landing (s : ScopeStack) (home : Home) : Level := s.levels.getD (home.scope - 1) s.active

theorem landing_of_le (h : s.outer.length ≤ home.scope - 1) : s.landing home = s.active := by
  simp only [landing, levels_eq, List.getD_eq_getElem?_getD]
  rw [List.getElem?_append_right (by simpa using h)]
  cases home.scope - 1 - s.outer.reverse.length <;> simp

theorem landing_of_lt (h : home.scope - 1 < s.outer.length) :
    s.outer[s.outer.length - 1 - (home.scope - 1)]? = some (s.landing home) := by
  simp [landing, levels_eq, List.getElem?_append_left, h]

/-- A record is put off to the end of one queue, and the answer tells whether that is the queue of
its home. -/
theorem defer_spec (s : ScopeStack) (home : Home) (r : Ref) : ∃ below above,
    s.levels = below ++ s.landing home :: above ∧
    (s.defer home r).2.levels = below ++ enqueue r (s.landing home) :: above ∧
    ((s.defer home r).1 = true ↔ (s.landing home).serial = home.serial) := by
  rcases Nat.lt_or_ge (home.scope - 1) s.outer.length with deep | shallow
  · have up : s.depth - 1 - (home.scope - 1) = s.outer.length - 1 - (home.scope - 1) + 1 := by
      unfold depth
      omega
    have found := landing_of_lt deep
    have inside := (List.getElem?_eq_some_iff.mp found).1
    obtain ⟨above, level, below, outer, length, changed⟩ := List.exists_of_modify (enqueue r) inside
    obtain rfl : level = s.landing home := by
      rw [← length, outer] at found
      simpa using found
    refine ⟨below.reverse, above.reverse ++ [s.active], ?_, ?_, ?_⟩
    · rw [levels_eq, outer]
      simp
    · simp only [defer, up, levels_eq, changed]
      simp
    · simp [defer, up, found]
  · have up : s.depth - 1 - (home.scope - 1) = 0 := by
      unfold depth
      omega
    rw [landing_of_le shallow]
    exact ⟨s.outer.reverse, [], s.levels_eq, by simp [defer, up, levels_eq], by simp [defer, up]⟩

theorem Numbered.id_landing (h : s.Numbered) {home : Home} (pos : 0 < home.scope) :
    (s.landing home).id = min home.scope s.depth := by
  rcases Nat.lt_or_ge (home.scope - 1) s.outer.length with deep | shallow
  · have up : s.outer.length - 1 - (home.scope - 1) = s.outer.length - home.scope := by
      rw [Nat.sub_sub, Nat.add_sub_cancel' pos]
    have inside : home.scope ≤ s.outer.length := Nat.le_of_pred_lt deep
    rw [h.2.id_eq (landing_of_lt deep), up, Nat.sub_sub_self inside, Nat.min_eq_left]
    exact Nat.le_succ_of_le inside
  · rw [landing_of_le shallow, Nat.min_eq_right]
    · exact h.current_eq
    · exact Nat.add_le_of_le_sub pos shallow

theorem home_landing (there : s.homes[home.scope - 1]? = some home) :
    (s.landing home).home = home := by
  unfold homes at there
  rw [List.getElem?_map] at there
  obtain ⟨level, found, named⟩ := Option.map_eq_some_iff.mp there
  simp [landing, found, named]

/-- Deferring to the level that was active at some earlier time: the record goes to the end of the
queue of that very level if it is still there, and else of the level in its position, or of the
active one if the stack is not that deep. The answer tells whether it is still there. -/
def Lands (earlier later : List Request) (r : Ref) : Prop :=
  ∃ below level above,
    (root.after (earlier ++ later)).levels = below ++ level :: above ∧
    ((root.after (earlier ++ later)).defer (root.after earlier).activeHome r).2.levels =
      below ++ enqueue r level :: above ∧
    level.id = min (root.after earlier).activeHome.scope (root.after (earlier ++ later)).depth ∧
    (Remains earlier later → level.home = (root.after earlier).activeHome) ∧
    (((root.after (earlier ++ later)).defer (root.after earlier).activeHome r).1 = true ↔
      Remains earlier later)

theorem lands (earlier later : List Request) (r : Ref) : Lands earlier later r := by
  obtain ⟨below, above, levels, levels', answer⟩ :=
    (root.after (earlier ++ later)).defer_spec (root.after earlier).activeHome r
  have numbered := numbered_after earlier
  have scope : (root.after earlier).activeHome.scope = (root.after earlier).depth :=
    numbered.current_eq
  have pos : 0 < (root.after earlier).activeHome.scope := numbered.pos
  have id := (numbered_after (earlier ++ later)).id_landing pos
  rcases remains_or_gone earlier later with ⟨remains, there⟩ | ⟨lost, gone⟩
  · rw [← scope] at there
    have home := home_landing there
    exact ⟨below, _, above, levels, levels', id, fun _ => home,
      answer.trans (iff_of_true (congrArg Home.serial home) remains)⟩
  · have other := gone.serial_ne
      ((root.after (earlier ++ later)).landing (root.after earlier).activeHome).home
      (by simp [homes, levels])
    exact ⟨below, _, above, levels, levels', id, fun remains => absurd remains lost,
      answer.trans (iff_of_false other lost)⟩

def under (home : Home) (l : List (Home × Ref)) : List (Home × Ref) := l.filter (·.1 = home)

@[simp] theorem under_append (home : Home) (l k : List (Home × Ref)) :
    under home (l ++ k) = under home l ++ under home k := by
  simp [under]

@[simp] theorem under_entries (level : Level) : under level.home level.entries = level.entries := by
  simp [under, Level.entries]

theorem under_flatMap_entries {l : List Level} (h : ∀ level ∈ l, level.home ≠ home) :
    under home (l.flatMap Level.entries) = [] := by
  simp only [under, Level.entries, List.filter_eq_nil_iff, List.mem_flatMap, List.mem_map]
  rintro _ ⟨level, there, r, _, rfl⟩
  simpa using h level there

theorem under_entries_of_ne {level : Level} (h : level.home ≠ home) :
    under home level.entries = [] := by
  simpa using under_flatMap_entries (l := [level]) (by simpa using h)

theorem perm_of_under {l k : List (Home × Ref)} (h : ∀ home, under home l = under home k) :
    l.Perm k := by
  rw [List.perm_iff_count]
  intro x
  have count (m : List (Home × Ref)) : (under x.1 m).count x = m.count x := by
    simp [under, List.count_filter]
  rw [← count l, ← count k, h]

namespace Exchange

def deferred (e : Exchange) : List (Home × Ref) :=
  match e.request with
  | .defer home r => [((e.before.landing home).home, r)]
  | _ => []

def taken (e : Exchange) : List (Home × Ref) :=
  match e.response with
  | .taken (some r) => [(e.before.activeHome, r)]
  | _ => []

def handed (e : Exchange) : List (Home × Ref) :=
  match e.response with
  | .left (.ok level) => level.entries
  | _ => []

end Exchange

def queued (s : ScopeStack) : List (Home × Ref) := s.levels.flatMap Level.entries

/-- What has been deferred to a level has been taken up, or handed out with the level, or it waits,
in this order. Levels that are still there have handed out nothing. -/
structure Settled (deferred taken handed : List (Home × Ref)) (s : ScopeStack) : Prop where
  under_eq : ∀ home,
    under home deferred = under home taken ++ under home handed ++ under home s.queued
  gone : ∀ x ∈ handed, s.Gone x.1.serial

section Steps

variable {deferred taken handed : List (Home × Ref)}

theorem Settled.under_handed (h : Settled deferred taken handed s) (there : home ∈ s.homes) :
    under home handed = [] := by
  simp only [under, List.filter_eq_nil_iff, decide_eq_true_eq]
  rintro x hx rfl
  exact (h.gone x hx).serial_ne x.1 there rfl

theorem under_queued {level : Level} {below above : List Level} (named : level.home = home)
    (nodup : s.homes.Nodup) (levels : s.levels = below ++ level :: above) :
    under home s.queued = level.entries := by
  subst named
  simp only [homes, levels, List.map_append, List.map_cons, List.nodup_middle] at nodup
  simp only [List.nodup_cons, List.mem_append, List.mem_map, not_or, not_exists, not_and] at nodup
  simp [queued, levels, under_flatMap_entries nodup.1.1, under_flatMap_entries nodup.1.2]

theorem under_queued_replaced {level new : Level} {below above : List Level}
    (nodup : s.homes.Nodup) (levels : s.levels = below ++ level :: above)
    (levels' : u.levels = below ++ new :: above) (named : new.home = level.home) (home : Home) :
    (level.home = home ∧ under home s.queued = level.entries ∧ under home u.queued = new.entries) ∨
      (level.home ≠ home ∧ under home u.queued = under home s.queued) := by
  by_cases same : level.home = home
  · have homes : u.homes = s.homes := by simp [ScopeStack.homes, levels, levels', named]
    rw [← homes] at nodup
    exact .inl ⟨same, under_queued same (homes ▸ nodup) levels,
      under_queued (named.trans same) nodup levels'⟩
  · have other : new.home ≠ home := named ▸ same
    refine .inr ⟨same, ?_⟩
    simp [queued, levels, levels', under_entries_of_ne same, under_entries_of_ne other]

theorem Settled.same (h : Settled deferred taken handed s) (k : Restacked s u)
    (queued : u.queued = s.queued) : Settled deferred taken handed u :=
  ⟨by simpa only [queued] using h.under_eq, fun x hx => (h.gone x hx).restacked k⟩

theorem queued_push (s : ScopeStack) : s.push.queued = s.queued := by
  rw [queued, levels_push, List.flatMap_append]
  exact List.append_nil _

theorem Settled.leave (h : Settled deferred taken handed s) (rising : s.Rising)
    (popped : s.pop = .ok (s.active, u)) :
    Settled deferred taken (handed ++ s.active.entries) u := by
  have levels := levels_of_pop popped
  have homes : s.homes = u.homes ++ [s.activeHome] := by
    simp [ScopeStack.homes, levels, Level.home, activeHome]
  have next := nextSerial_of_pop popped
  have gone := rising.gone homes next
  constructor
  · intro home
    have before := h.under_eq home
    have queued : s.queued = u.queued ++ s.active.entries := by simp [ScopeStack.queued, levels]
    rw [queued, under_append] at before
    by_cases same : s.active.home = home
    · have none : under home u.queued = [] := by
        refine under_flatMap_entries fun level there eq => ?_
        refine gone.serial_ne level.home (List.mem_map_of_mem there) ?_
        rw [eq, ← same]
        rfl
      simpa [none] using before
    · simpa [under_entries_of_ne same] using before
  · simp only [List.mem_append, Level.entries, List.mem_map]
    rintro x (old | ⟨r, _, rfl⟩)
    · exact (h.gone x old).restacked (.shrunk homes next)
    · exact gone

theorem Settled.defer (h : Settled deferred taken handed s) (rising : s.Rising) (home : Home)
    (r : Ref) :
    Settled (deferred ++ [((s.landing home).home, r)]) taken handed (s.defer home r).2 := by
  obtain ⟨below, above, levels, levels', _⟩ := s.defer_spec home r
  refine ⟨fun name => ?_, fun x hx => (h.gone x hx).restacked (Served.deferred s home r).restacked⟩
  rw [under_append, h.under_eq]
  rcases under_queued_replaced rising.nodup levels levels' rfl name with
    ⟨same, before, after⟩ | ⟨other, after⟩
  · rw [before, after, Level.entries_enqueue]
    simp [under, same]
  · rw [after]
    simp [under, other]

theorem Settled.take (h : Settled deferred taken handed s) (rising : s.Rising) {rest : List Ref}
    (queue : s.active.queue = r :: rest) : Settled deferred (taken ++ [(s.activeHome, r)]) handed
      { s with active := { s.active with queue := rest } } := by
  refine ⟨fun name => ?_, fun x hx => (h.gone x hx).restacked (Served.taken queue).restacked⟩
  rw [under_append, h.under_eq]
  rcases under_queued_replaced (u := { s with active := { s.active with queue := rest } })
    rising.nodup s.levels_eq (levels_eq _) rfl name with ⟨rfl, before, after⟩ | ⟨other, after⟩
  · have there : s.active.home ∈ s.homes := by simp [homes, levels]
    rw [before, after, h.under_handed there]
    simp [Level.entries, queue, under, Level.home, activeHome]
  · have other : s.activeHome ≠ name := other
    rw [after]
    simp [under, other]

theorem Settled.served (h : Settled deferred taken handed e.before) (rising : e.before.Rising)
    (step : Served e) :
    Settled (deferred ++ e.deferred) (taken ++ e.taken) (handed ++ e.handed) e.after := by
  have kept := step.restacked
  cases step with
  | entered s =>
    simpa [Exchange.deferred, Exchange.taken, Exchange.handed] using h.same kept s.queued_push
  | left popped =>
    simpa [Exchange.deferred, Exchange.taken, Exchange.handed] using h.leave rising popped
  | refused | idle => simpa [Exchange.deferred, Exchange.taken, Exchange.handed] using h
  | deferred s home r =>
    simpa [Exchange.deferred, Exchange.taken, Exchange.handed] using h.defer rising home r
  | taken queue =>
    simpa [Exchange.deferred, Exchange.taken, Exchange.handed] using h.take rising queue

end Steps

def deferred (requests : List Request) : List (Home × Ref) :=
  (root.exchanges requests).flatMap Exchange.deferred

def taken (requests : List Request) : List (Home × Ref) :=
  (root.exchanges requests).flatMap Exchange.taken

def handed (requests : List Request) : List (Home × Ref) :=
  (root.exchanges requests).flatMap Exchange.handed

theorem settled (requests : List Request) :
    Settled (deferred requests) (taken requests) (handed requests) (root.after requests) := by
  induction requests using List.reverseRecOn with
  | nil => exact ⟨fun home => rfl, by simp [handed, exchanges]⟩
  | append_singleton requests request ih =>
    have step := ih.served (e := (root.after requests).exchange request)
      (rising_after requests) (served _ request)
    simpa [deferred, taken, handed, exchanges_concat, after_concat] using step

def Request.ref? : Request → Option Ref
  | .defer _ r => some r
  | _ => none

theorem map_deferred (requests : List Request) :
    (deferred requests).map Prod.snd = requests.filterMap Request.ref? := by
  unfold deferred
  generalize root = s
  induction requests generalizing s with
  | nil => rfl
  | cons request requests ih =>
    rw [exchanges, List.flatMap_cons, List.map_append, ih]
    cases request with
    | push | pop | nextPending => rfl
    | defer home r => rfl

/-- The stack after some requests is a stack of first-in first-out queues, and its levels are told
apart for ever. -/
structure Queueing (requests : List Request) : Prop where
  ids : (root.after requests).levels.map Level.id = List.range' 1 (root.after requests).depth
  current : (root.after requests).current = (root.after requests).depth
  rising : ((root.after requests).levels.map Level.serial).Pairwise (· < ·)
  /-- No two levels ever have the same serial number, the root among them. -/
  distinct : ((root.activeHome :: opened requests).map Home.serial).Nodup
  deferral : ∀ earlier later, requests = earlier ++ later → ∀ r, Lands earlier later r
  /-- Asked for the next record, the active level gives the first one of its queue and keeps the
  others. -/
  next : ∀ r rest, (root.after requests).active.queue = r :: rest →
    (root.after requests).nextPending = (some r, { root.after requests with
      active := { (root.after requests).active with queue := rest } })
  /-- Nothing that has been deferred is left out of account. -/
  complete : (deferred requests).map Prod.snd = requests.filterMap Request.ref?
  /-- It has been taken up, or handed out with its level, or it waits, and only one of these. -/
  accounted : (deferred requests).Perm
    (taken requests ++ handed requests ++ (root.after requests).queued)
  /-- Each level gives its records back in the order in which they were deferred to it. -/
  order : ∀ home, under home (deferred requests) = under home (taken requests) ++
    under home (handed requests) ++ under home (root.after requests).queued

theorem queueing (requests : List Request) : Queueing requests := by
  have numbered := numbered_after requests
  have settled := settled requests
  exact {
    ids := numbered.map_id
    current := numbered.current_eq
    rising := by simpa [homes, Level.home, Function.comp_def] using (rising_after requests).serials
    distinct := nodup_serials_opened requests
    deferral := by
      rintro earlier later rfl
      exact lands earlier later
    next := fun r rest queue => by rw [nextPending, queue]
    complete := map_deferred requests
    accounted := perm_of_under fun home => by simpa using settled.under_eq home
    order := settled.under_eq }

/-- A scope is left and another one entered at the same depth before a record of the first comes to
be put off. -/
theorem queueing_reentry : ¬ Remains [.push] [.pop, .push] ∧
    ((root.after [.push, .pop, .push]).defer (root.after [.push]).activeHome ⟨0, 0⟩).1 ≠ true ∧
    (deferred [.push, .pop, .push, .defer ⟨2, 1⟩ ⟨0, 0⟩, .pop]).Perm [(⟨2, 2⟩, ⟨0, 0⟩)] := by
  have lost : ¬ Remains [.push] [.pop, .push] := fun h => absurd (h [.pop] (by simp)) (by decide)
  obtain ⟨_, _, _, _, _, _, _, answer⟩ :=
    (queueing [.push, .pop, .push]).deferral [.push] [.pop, .push] rfl ⟨0, 0⟩
  exact ⟨lost, fun h => lost (answer.mp h),
    (queueing [.push, .pop, .push, .defer ⟨2, 1⟩ ⟨0, 0⟩, .pop]).accounted⟩

end ScopeStack

end ScopedHeap
