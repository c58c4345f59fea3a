import ScopedHeap.Answer
import ScopedHeap.Proofs.Conduct

/-!
# What changes come to

`Update.Completed` and `Update.Failed` say what a change has done when it is over: which deeds it
consists of, which record it dooms, and how the references it gains and loses add up with the counts
that the client earns and spends by it. `ends_change` proves this for every change.
-/
namespace ScopedHeap

namespace Context

variable (cx : Context) (family : Family) (r : Ref)

def countsUp : Bool :=
  (cx.table.find? r).any fun record =>
    family.tracks record.header cx.current && decide (record.header.state ≠ .pending)

def countsDown : Bool :=
  (cx.table.find? r).any fun record =>
    family.tracks record.header cx.current && decide (record.header.refcount ≠ 0)

end Context

namespace Update

variable {ρ ν σ : Type}

/-- The change puts payloads into records by hand. -/
def exchangesPayload : Update ρ ν σ → Bool
  | .staticFrom _ | .setPayload _ _ | .swapPayloads _ _ => true
  | _ => false

/-- The change is a decrement that keeps its record. -/
def isKeep : Update ρ ν σ → Bool
  | .decrement _ keep _ => keep
  | _ => false

/-- The count that the client gives up by a change. -/
def spent (c : Change) (cx : Context) : List Ref :=
  match c with
  | .decrement family _ (some r) => if cx.countsDown family r then [r] else []
  | _ => []

/-- The count that the client holds from a change on: one that is added, or that of a new record. -/
def earned (c : Change) (cx : Context) (effect : Effect) : List Ref :=
  match c with
  | .increment family (some r) => if cx.countsUp family r then [r] else []
  | _ =>
    match effect.answer with
    | .ref r => [r]
    | _ => []

end Update

/-- The deeds of which a change may consist. -/
def Deed.Permitted (c : Change) : Deed → Prop
  | raise _ | lower _ | defer _ | destroy _ | allocate _ _ => True
  | allocateStatic _ payload => payload.isContainer = false ∨ c.exchangesPayload = true
  | store _ old new => new.kind = old.kind ∨ c.exchangesPayload = true
  | keep _ => c.isKeep = true
  | enter => c = .pushScope
  | drain _ | hook _ _ | leave | bury | sweep _ => False

theorem Deed.Ordinary.permitted {d : Deed} (h : d.Ordinary) (c : Change) : d.Permitted c := by
  cases d with
  | raise | lower | defer | destroy | allocate => trivial
  | allocateStatic | store => exact Or.inl h
  | keep | drain | hook | enter | leave | bury | sweep => cases h

theorem Conduct.permitted {ds : List Deed} {doomed : Option Doomed} {minus plus : List Ref}
    (h : Conduct ds doomed minus plus) (c : Change) : ∀ d ∈ ds, d.Permitted c :=
  fun d hd => (h.ordinary d hd).permitted c

structure Update.Completed (c : Change) (cx : Context) (effect : Effect) (ds : List Deed)
    (cx' : Context) : Prop where
  permitted : ∀ d ∈ ds, d.Permitted c
  dooms : Dooms ds effect.doomed
  balance : c.exchangesPayload = false → ∀ x, cx'.table.isStatic x = false →
    (ds.flatMap Deed.gains).count x + (c.spent cx).count x =
      (ds.flatMap Deed.losses).count x + (effect.doomed.elim [] Doomed.refs).count x +
        (c.earned cx effect).count x
  born : c.exchangesPayload = false → ∀ r, effect.answer = .ref r →
    (∃ p, .allocate r p ∈ ds) ∨ ∃ p, .allocateStatic r p ∈ ds

structure Update.Failed (c : Change) (ds : List Deed) (cx' : Context) : Prop where
  permitted : ∀ d ∈ ds, d.Permitted c
  dooms : Dooms ds none
  balance : c.exchangesPayload = false → ∃ lost : List Ref, (∀ r ∈ lost, cx'.Unheld r) ∧
    ∀ x, (ds.flatMap Deed.gains).count x = (ds.flatMap Deed.losses).count x + lost.count x

namespace Act

open Context

variable {α : Type} {w : Workspace} {c : Change}

/-- Some path leads to the outcome of a change, and it accounts for it. -/
def Accounted (c : Change) (cx : Context) (a : Except Error Effect) (cx' : Context) : Prop :=
  ∃ ds, Path cx ds cx' ∧ match a with
    | .ok effect => c.Completed cx effect ds cx'
    | .error _ => c.Failed ds cx'

theorem accounted_unchanged_error (c : Change) (cx : Context) (e : Error) :
    Accounted c cx (.error e) cx :=
  ⟨[], .refl cx, by simp, dooms_none_iff.mpr (by simp), fun _ => ⟨[], by simp, fun _ => rfl⟩⟩

theorem accounted_unchanged {cx : Context} {effect : Effect} (doomed : effect.doomed = none)
    (answer : effect.answer = .done) (idle : c.spent cx = [] ∧ c.earned cx effect = []) :
    Accounted c cx (.ok effect) cx := by
  refine ⟨[], .refl cx, by simp, by simp [doomed, dooms_none_iff], ?_, by simp [answer]⟩
  intro _ x _
  rw [doomed, idle.1, idle.2]
  rfl

theorem Settles.accounted {x : Act α} {doomed : α → Option Doomed} {fresh : α → List Ref}
    (h : x.Settles doomed fresh) (sound : w.context.Sound) {f : α → Effect}
    (spent : c.spent w.context = []) (doomed_eq : ∀ a, (f a).doomed = doomed a)
    (earned_eq : ∀ a, c.earned w.context (f a) = fresh a)
    (answer_eq : ∀ a r, (f a).answer = .ref r → r ∈ fresh a) :
    (x >>= fun a => pure (f a)).Ends w (Accounted c w.context) := by
  refine (h w sound).map f ?_ ?_
  · rintro e cx ⟨ds, path, lost, conduct, unheld⟩
    refine ⟨ds, path, conduct.permitted c, conduct.dooms, ?_⟩
    intro _
    exact ⟨lost, unheld, fun x => by simpa using conduct.balance x⟩
  · rintro a cx ⟨ds, path, conduct, born⟩
    refine ⟨ds, path, conduct.permitted c, ?_, ?_, ?_⟩
    · rw [doomed_eq]
      exact conduct.dooms
    · intro _ x _
      rw [spent, doomed_eq, earned_eq]
      exact conduct.balance x
    · intro _ r answer
      exact Or.inl (born r (answer_eq a r answer))

theorem ends_increment_client (family : Family) (r : Ref) (w : Workspace) :
    (increment family r).Ends w (Either
      (fun _ cx => Path w.context (if w.context.countsUp family r then [.raise r] else []) cx)
      fun cx => cx = w.context) := by
  apply (ends_increment family r w).mono
  intro a cx h
  cases h with
  | dangling => rfl
  | refused => rfl
  | @ignored record found untracked =>
    have uncounted : w.context.countsUp family r = false := by simp [countsUp, found, untracked]
    rw [uncounted]
    exact .refl _
  | @raised record found tracked awake =>
    have counted : w.context.countsUp family r = true := by simp [countsUp, found, tracked, awake]
    rw [counted]
    exact .single (.raise found (Family.creationScope_ne_of_tracks tracked) awake)

theorem accounted_increment (family : Family) (r : Ref) (w : Workspace) :
    (Act.change (.increment family (some r))).Ends w
      (Accounted (.increment family (some r)) w.context) := by
  refine (ends_increment_client family r w).map _ ?_ ?_
  · rintro e cx rfl
    exact accounted_unchanged_error _ _ e
  · intro _ cx path
    refine ⟨_, path, ?_, ?_, ?_, by simp⟩
    · intro d hd
      split at hd
      · rw [List.mem_singleton.mp hd]
        trivial
      · cases hd
    · split <;> simp [dooms_none_iff]
    · intro _ x _
      simp only [Update.spent, Update.earned]
      split <;> simp [Deed.gains, Deed.losses]

theorem accounted_decrement (family : Family) (keep : Bool) (r : Ref) (w : Workspace) :
    (Act.change (.decrement family keep (some r))).Ends w
      (Accounted (.decrement family keep (some r)) w.context) := by
  refine (ends_decrement family keep r w).map _ ?_ ?_
  · intro e cx h
    cases h with
    | dangling | underflow => exact accounted_unchanged_error _ _ _
  · intro doomed cx h
    cases h with
    | @ignored record found untracked =>
      refine ⟨[], .refl _, by simp, dooms_none_iff.mpr (by simp), ?_, by simp⟩
      intro _ x _
      simp [Update.spent, Update.earned, countsDown, found, untracked]
    | @lowered record n found tracked count stays =>
      have tracks := Family.creationScope_ne_of_tracks tracked
      have counted : w.context.countsDown family r = true := by
        simp [countsDown, found, tracked, count]
      cases keep with
      | true =>
        refine ⟨[.keep r], .single (.keep found tracks count), ?_, dooms_none_iff.mpr (by simp), ?_,
          by simp⟩
        · intro d hd
          rw [List.mem_singleton.mp hd]
          rfl
        · intro _ x _
          simp [Update.spent, Update.earned, counted, Deed.gains, Deed.losses]
      | false =>
        obtain ⟨n, rfl⟩ := Nat.exists_eq_succ_of_ne_zero (stays.resolve_left (by simp))
        refine ⟨[.lower r], .single (.lower found tracks count), ?_, dooms_none_iff.mpr (by simp),
          ?_, by simp⟩
        · intro d hd
          rw [List.mem_singleton.mp hd]
          trivial
        · intro _ x _
          simp [Update.spent, Update.earned, counted, Deed.gains, Deed.losses]
    | @destroyed record gone table found tracked last gives inner removed =>
      have tracks := Family.creationScope_ne_of_tracks tracked
      have counted : w.context.countsDown family r = true := by
        simp [countsDown, found, tracked, last]
      refine ⟨[.destroy ⟨r, gone⟩], .single (.destroy found tracks last inner removed), ?_,
        dooms_destroy _, ?_, by simp⟩
      · intro d hd
        rw [List.mem_singleton.mp hd]
        trivial
      · intro _ x _
        simp [Update.spent, Update.earned, counted, Deed.gains, Deed.losses, Doomed.refs]
        omega
    | @deferred record found tracked last gives outer =>
      have tracks := Family.creationScope_ne_of_tracks tracked
      have counted : w.context.countsDown family r = true := by
        simp [countsDown, found, tracked, last]
      refine ⟨[.defer r], .single (.defer found tracks last outer), ?_,
        dooms_none_iff.mpr (by simp), ?_,
        by simp⟩
      · intro d hd
        rw [List.mem_singleton.mp hd]
        trivial
      · intro _ x _
        simp [Update.spent, Update.earned, counted, Deed.gains, Deed.losses]

theorem accounted_allocateStatic (contents : Literal) (w : Workspace) (sound : w.context.Sound) :
    (Act.change (.allocateStatic contents)).Ends w
      (Accounted (.allocateStatic contents) w.context) := by
  have plain : contents.payload.isContainer = false := by cases contents <;> rfl
  have refs : contents.payload.refs = [] := by cases contents <;> rfl
  refine Ends.map (P := Either
    (fun r cx => ∃ grant table,
      w.context.table.insert grant ⟨.forever, contents.payload⟩ = .ok (r, table) ∧
      cx = { w.context with table })
    fun cx => cx = w.context)
    (ends_allocateStatic (fun _ => rfl) fun grant r table inserted =>
      ⟨grant, table, inserted, rfl⟩) _ ?_ ?_
  · rintro e cx rfl
    exact accounted_unchanged_error _ _ e
  · rintro r cx ⟨grant, table, inserted, rfl⟩
    refine ⟨[.allocateStatic r contents.payload],
      .single (.allocateStatic inserted (Payload.paired_of_plain plain)), ?_,
      dooms_none_iff.mpr (by simp), ?_, by simp⟩
    · intro d hd
      rw [List.mem_singleton.mp hd]
      exact Or.inl plain
    · intro _ x counted
      have spec := (Table.insert_spec sound.vacant inserted).1
      have hx : x ≠ r := by
        rintro rfl
        have found : table.find? x = some ⟨.forever, contents.payload⟩ := by
          rw [spec.find?, if_pos rfl]
        rw [(Table.isStatic_of_find? found).mpr rfl] at counted
        cases counted
      simp [Update.spent, Update.earned, Deed.gains, Deed.losses, refs, Ne.symm hx]

theorem accounted_writeRaw (r : Ref) (offset : Nat) (bytes : List UInt8) (w : Workspace) :
    (Act.change (.writeRaw r offset bytes)).Ends w
      (Accounted (.writeRaw r offset bytes) w.context) := by
  apply ends_updatePayload_bind
  · exact fun e _ => accounted_unchanged_error _ _ e
  · intro record a q v found passed hv
    obtain ⟨storage, hraw, h⟩ := bind_eq_ok.mp passed
    cases h
    have payload : record.payload = .raw storage := by
      cases hp : record.payload with
      | raw =>
        rw [hp] at hraw
        cases hraw
        rfl
      | str | text | list | dict | set =>
        rw [hp] at hraw
        cases hraw
    obtain ⟨ds, path, conduct, _⟩ := path_rearrange found (q := .raw (storage.write offset bytes))
      (by rw [payload]; rfl) (by rw [payload]; rfl) trivial hv
    refine ends_pure
      ⟨ds, path, conduct.permitted _, conduct.dooms, ?_, by simp⟩
    intro _ x _
    exact conduct.balance x

/-- Payloads have been put into records, and into new static ones. -/
def Handled (cx cx' : Context) : Prop :=
  ∃ ds, Path cx ds cx' ∧ ∀ d ∈ ds, (∃ r old new, d = .store r old new) ∨
    ∃ r payload, d = .allocateStatic r payload

theorem Handled.trans {a b c : Context} (h : Handled a b) (k : Handled b c) : Handled a c := by
  obtain ⟨ds, path, hds⟩ := h
  obtain ⟨es, rest, hes⟩ := k
  refine ⟨ds ++ es, path.trans rest, ?_⟩
  intro d hd
  rcases List.mem_append.mp hd with hd | hd
  · exact hds d hd
  · exact hes d hd

theorem Handled.sound {cx cx' : Context} (h : Handled cx cx') (sound : cx.Sound) : cx'.Sound := by
  obtain ⟨ds, path, _⟩ := h
  exact path.sound sound

theorem Handled.accounted {cx cx' : Context} {a : Except Error Effect} (h : Handled cx cx')
    (exchanges : c.exchangesPayload = true)
    (doomed : ∀ effect, a = .ok effect → effect.doomed = none) :
    Accounted c cx a cx' := by
  obtain ⟨ds, path, hds⟩ := h
  have permitted : ∀ d ∈ ds, d.Permitted c := by
    intro d hd
    rcases hds d hd with ⟨r, old, new, rfl⟩ | ⟨r, payload, rfl⟩
    · exact Or.inr exchanges
    · exact Or.inr exchanges
  have dooms : Dooms ds none := by
    rw [dooms_none_iff]
    intro d hd
    rcases hds _ hd with ⟨r, old, new, h⟩ | ⟨r, payload, h⟩
    · cases h
    · cases h
  have vacuous : ∀ {P : Prop}, c.exchangesPayload = false → P := by
    intro P h
    rw [exchanges] at h
    cases h
  refine ⟨ds, path, ?_⟩
  cases a with
  | ok effect => exact ⟨permitted, by rw [doomed effect rfl]; exact dooms, vacuous, vacuous⟩
  | error e => exact ⟨permitted, dooms, vacuous⟩

theorem ends_exchangePayload_bind {β : Type} {r : Ref} {payload : Payload} {g : Payload → Act β}
    {R : Except Error β → Context → Prop} (sound : w.context.Sound) (paired : payload.Paired)
    (failed : ∀ e, R (.error e) w.context)
    (stored : ∀ old (v : Workspace), Handled w.context v.context → old.Paired → (g old).Ends v R) :
    (exchangePayload r payload >>= g).Ends w R := by
  apply ends_updatePayload_bind (fun e _ => failed e)
  intro record old q v found passed hv
  cases passed
  refine stored record.payload v ⟨[.store r record.payload payload], ?_, ?_⟩
    (sound.proper r _ (Table.bare_of_find? found)).paired
  · rw [hv]
    exact .single (.store found paired)
  · intro d hd
    exact Or.inl ⟨r, _, _, List.mem_singleton.mp hd⟩

theorem handled_refl (cx : Context) : Handled cx cx := ⟨[], .refl cx, by simp⟩

theorem ends_setPayload (r : Ref) {payload : Payload} (paired : payload.Paired) (w : Workspace)
    (sound : w.context.Sound) : (setPayload r payload).Ends w fun _ cx => Handled w.context cx := by
  apply ends_exchangePayload_bind sound paired (fun _ => handled_refl _)
  intro old v handled _
  exact ends_pure handled

theorem ends_staticFrom (r : Ref) (w : Workspace) (sound : w.context.Sound) :
    (staticFrom r).Ends w fun _ cx => Handled w.context cx := by
  apply ends_exchangePayload_bind sound Payload.paired_empty (fun _ => handled_refl _)
  intro old v handled paired
  apply ends_allocateStatic
  · exact fun _ => handled
  · intro _ s table inserted
    refine handled.trans ⟨[.allocateStatic s old], .single (.allocateStatic inserted paired), ?_⟩
    intro d hd
    exact Or.inr ⟨s, old, List.mem_singleton.mp hd⟩

theorem ends_swapPayloads (a b : Ref) (w : Workspace) (sound : w.context.Sound) :
    (swapPayloads a b).Ends w fun _ cx => Handled w.context cx := by
  apply ends_exchangePayload_bind sound Payload.paired_empty (fun _ => handled_refl _)
  intro fromB v₁ emptied pairedB
  apply ends_exchangePayload_bind (emptied.sound sound) pairedB (fun _ => emptied)
  intro fromA v₂ taken pairedA
  have handled := emptied.trans taken
  apply (ends_setPayload b pairedA v₂ (handled.sound sound)).mono
  exact fun _ cx put => handled.trans put

theorem ends_change (c : Change) (w : Workspace) (sound : w.context.Sound) :
    (Act.change c).Ends w (Accounted c w.context) := by
  cases c with
  | allocate size zeroed =>
    exact (settles_allocate size zeroed).accounted sound rfl (fun _ => rfl) (fun _ => rfl) (by simp)
  | allocateStatic contents => exact accounted_allocateStatic contents w sound
  | staticFrom r =>
    refine (ends_staticFrom r w sound).map _ ?_ ?_
    · exact fun e cx handled => handled.accounted rfl fun _ h => by cases h
    · exact fun s cx handled => handled.accounted rfl fun _ h => by cases h; rfl
  | setPayload r contents =>
    refine (ends_setPayload r (by cases contents <;> trivial) w sound).map _ ?_ ?_
    · exact fun e cx handled => handled.accounted rfl fun _ h => by cases h
    · exact fun s cx handled => handled.accounted rfl fun _ h => by cases h; rfl
  | swapPayloads a b =>
    refine (ends_swapPayloads a b w sound).map _ ?_ ?_
    · exact fun e cx handled => handled.accounted rfl fun _ h => by cases h
    · exact fun s cx handled => handled.accounted rfl fun _ h => by cases h; rfl
  | writeRaw r offset bytes => exact accounted_writeRaw r offset bytes w
  | pushScope =>
    refine Ends.map (P := fun a cx => (∃ id, a = .ok id) ∧
      cx = { w.context with scopes := w.context.scopes.push })
      (ends_pushScope ⟨⟨_, rfl⟩, rfl⟩) _ ?_ ?_
    · rintro e cx ⟨⟨id, h⟩, _⟩
      cases h
    · rintro id cx ⟨_, rfl⟩
      refine ⟨[.enter], .single .enter, ?_, dooms_none_iff.mpr (by simp), fun _ x _ => rfl, by simp⟩
      intro d hd
      rw [List.mem_singleton.mp hd]
      rfl
  | increment family target =>
    cases target with
    | none => exact ends_pure (accounted_unchanged rfl rfl ⟨rfl, rfl⟩)
    | some r => exact accounted_increment family r w
  | decrement family keep target =>
    cases target with
    | none => exact ends_pure (accounted_unchanged rfl rfl ⟨rfl, rfl⟩)
    | some r => exact accounted_decrement family keep r w
  | newStr bytes =>
    exact (settles_allocBuffered rfl).accounted sound rfl (fun _ => rfl) (fun _ => rfl) (by simp)
  | newText content =>
    exact (settles_allocBuffered rfl).accounted sound rfl (fun _ => rfl) (fun _ => rfl) (by simp)
  | newList kind slots =>
    exact (settles_newList kind slots).accounted sound rfl (fun _ => rfl) (fun _ => rfl) (by simp)
  | listPush r v =>
    exact (settles_listPush r v).accounted sound rfl (fun _ => rfl) (fun _ => rfl) (by simp)
  | listPop r =>
    exact (settles_listPop r).accounted sound rfl (fun _ => rfl) (fun _ => rfl) (by simp)
  | listSet r index v =>
    exact (settles_listSet r index v).accounted sound rfl (fun _ => rfl) (fun _ => rfl) (by simp)
  | newDict keyKind valueKind keys values =>
    exact (settles_newDict keyKind valueKind keys values).accounted sound rfl (fun _ => rfl)
      (fun _ => rfl) (by simp)
  | dictInsert r key v =>
    exact (settles_dictInsert r key v).accounted sound rfl (fun _ => rfl) (fun _ => rfl) (by simp)
  | newSet kind slots =>
    exact (settles_newSet kind slots).accounted sound rfl (fun _ => rfl) (fun _ => rfl) (by simp)

end Act

end ScopedHeap
