import Mathlib.Data.List.DropRight
import Mathlib.Data.Nat.Digits.Defs
import ScopedHeap.Proofs.Lowercase
import ScopedHeap.Settings.Sources

/-!
# Overrides

What the variables of the environment make of settings, said by the texts that they hold. A text is
read without the white space around it (`Text.Stripped`). A number is a decimal numeral for a size
(`Settings.IsNumber`), and a flag is raised by four words, in capitals or not (`Settings.Affirms`).
The two numbers are read first, one after the other, and the first that is none ends the matter.
-/
namespace ScopedHeap

open Text (Environment)

namespace Text

variable {s t : List Char} {n bound : Nat}

/-- What is left of a text without the white space around it. -/
structure Stripped (s t : List Char) : Prop where
  around : ∃ lead trail, s = lead ++ (t ++ trail) ∧ (∀ c ∈ lead, isWhiteSpace c) ∧
    ∀ c ∈ trail, isWhiteSpace c
  front : ∀ c, t.head? = some c → ¬ isWhiteSpace c
  back : ∀ c, t.getLast? = some c → ¬ isWhiteSpace c

theorem trim_eq (s : List Char) :
    trim s = (s.dropWhile isWhiteSpace).rdropWhile isWhiteSpace := rfl

theorem stripped_trim (s : List Char) : Stripped s (trim s) := by
  rw [trim_eq]
  constructor
  · refine ⟨s.takeWhile isWhiteSpace, (s.dropWhile isWhiteSpace).rtakeWhile isWhiteSpace, ?_,
      fun c => List.mem_takeWhile_imp, fun c => List.mem_rtakeWhile_imp⟩
    rw [List.rdropWhile_append_rtakeWhile, List.takeWhile_append_dropWhile]
  · intro c head
    obtain ⟨trail, split⟩ := List.rdropWhile_prefix isWhiteSpace (s.dropWhile isWhiteSpace)
    have first := List.head?_dropWhile_not isWhiteSpace s
    rw [← split, List.head?_append, head] at first
    exact Bool.eq_false_iff.mp first
  · intro c last
    obtain ⟨front, split⟩ := List.getLast?_eq_some_iff.mp last
    have ends := List.rdropWhile_last_not isWhiteSpace (s.dropWhile isWhiteSpace)
    simp only [split, List.getLast_append_singleton] at ends
    exact ends (List.concat_ne_nil _ _)

theorem Stripped.trim_eq (h : Stripped s t) : trim s = t := by
  obtain ⟨lead, trail, rfl, white, white'⟩ := h.around
  rw [Text.trim, List.dropWhile_append_of_pos white]
  cases t with
  | nil =>
    rw [List.nil_append, List.dropWhile_eq_nil_iff.mpr white']
    rfl
  | cons c rest =>
    rw [List.cons_append, List.dropWhile_cons_of_neg (h.front c rfl), ← List.cons_append,
      List.reverse_append,
      List.dropWhile_append_of_pos fun c mem => white' c (List.mem_reverse.mp mem)]
    cases last : (c :: rest).reverse with
    | nil => simp at last
    | cons d front =>
      have ends : (c :: rest).getLast? = some d := by rw [← List.head?_reverse, last]; rfl
      rw [List.dropWhile_cons_of_neg (h.back d ends), ← last, List.reverse_reverse]

/-- The number that decimal digits stand for, the last of which counts ones. -/
def digitsValue (digits : List Char) : Nat :=
  Nat.ofDigits 10 (digits.reverse.map fun c => c.toNat - '0'.toNat)

/-- A text is a number in decimal digits, with a plus sign before them or without. -/
def Denotes (t : List Char) (n : Nat) : Prop :=
  ∃ digits, (t = digits ∨ t = '+' :: digits) ∧ digits ≠ [] ∧ (∀ c ∈ digits, c.isDigit) ∧
    digitsValue digits = n

theorem digitsValue_eq (digits : List Char) :
    digitsValue digits = digits.foldl (fun n c => n * 10 + (c.toNat - '0'.toNat)) 0 := by
  rw [digitsValue, Nat.ofDigits_eq_foldr, List.foldr_map, List.foldr_reverse]
  simp only [Nat.cast_id, Nat.mul_comm 10, Nat.add_comm (_ - _)]

/-- What is left of a text without the plus sign at its front, if there is one. -/
def Unsigned (t digits : List Char) : Prop :=
  t = '+' :: digits ∨ t = digits ∧ ∀ rest, t ≠ '+' :: rest

theorem exists_unsigned (t : List Char) : ∃ digits, Unsigned t digits := by
  by_cases signed : ∃ digits, t = '+' :: digits
  · obtain ⟨digits, rfl⟩ := signed
    exact ⟨digits, .inl rfl⟩
  · exact ⟨t, .inr ⟨rfl, not_exists.mp signed⟩⟩

theorem Unsigned.natural?_eq {digits : List Char} (h : Unsigned t digits) (bound : Nat) :
    natural? bound t =
      if digits.isEmpty || !digits.all Char.isDigit then none
      else if digitsValue digits < bound then some (digitsValue digits) else none := by
  rw [digitsValue_eq]
  rcases h with rfl | ⟨rfl, unsigned⟩
  · rfl
  · unfold natural?
    split
    · exact absurd rfl (unsigned _)
    · rfl

/-- A sign is no digit, so there is no choice about where the digits begin. -/
theorem Unsigned.denotes_iff {digits : List Char} (h : Unsigned t digits) :
    Denotes t n ↔ digits ≠ [] ∧ (∀ c ∈ digits, c.isDigit) ∧ digitsValue digits = n := by
  constructor
  · rintro ⟨digits', form, some, all, value⟩
    obtain rfl : digits' = digits := by
      rcases h with rfl | ⟨rfl, unsigned⟩ <;> rcases form with rfl | form
      · exact absurd (all '+' List.mem_cons_self) (by decide)
      · exact (List.cons.inj form).2.symm
      · rfl
      · exact absurd form (unsigned digits')
    exact ⟨some, all, value⟩
  · intro reads
    exact ⟨digits, h.symm.imp_left And.left, reads⟩

theorem natural?_eq_some_iff : natural? bound t = some n ↔ Denotes t n ∧ n < bound := by
  obtain ⟨digits, unsigned⟩ := exists_unsigned t
  rw [unsigned.natural?_eq, unsigned.denotes_iff]
  have read : (digits.isEmpty || !digits.all Char.isDigit) = false ↔
      digits ≠ [] ∧ ∀ c ∈ digits, c.isDigit := by simp
  cases unread : digits.isEmpty || !digits.all Char.isDigit with
  | false =>
    obtain ⟨some, all⟩ := read.mp unread
    rw [if_neg Bool.false_ne_true, Option.ite_none_right_eq_some, Option.some.injEq]
    constructor
    · rintro ⟨below, rfl⟩
      exact ⟨⟨some, all, rfl⟩, below⟩
    · rintro ⟨⟨_, _, rfl⟩, below⟩
      exact ⟨below, rfl⟩
  | true =>
    rw [if_pos rfl]
    refine iff_of_false nofun fun h => ?_
    cases unread.symm.trans (read.mpr ⟨h.1.1, h.1.2.1⟩)

def Environment.ofTexts (texts : List (String × String)) : Environment :=
  ⟨texts.map fun (name, text) => (name, text.toUTF8.data.toList)⟩

theorem decode?_toUTF8 (text : String) : decode? text.toUTF8.data.toList = some text :=
  dif_pos text.isValidUTF8

theorem Environment.get?_ofTexts (texts : List (String × String)) (name : String) :
    (ofTexts texts).get? name = texts.lookup name := by
  unfold get? ofTexts
  induction texts with
  | nil => rfl
  | cons entry texts ih =>
    rw [List.map_cons, List.lookup_cons, List.lookup_cons]
    cases name == entry.1
    · exact ih
    · exact decode?_toUTF8 entry.2

end Text

namespace Settings

variable {env : Environment} {name value : String} {n current : Nat} {flag flag' : Bool}
  {final : List Char → List Char → Bool} {s s' : Settings} {outcome : Except SettingsError Unit}

/-- A text is a numeral for a size, with white space around it or without. -/
def IsNumber (value : String) (n : Nat) : Prop :=
  ∃ t, Text.Stripped value.toList t ∧ Text.Denotes t n ∧ n < sizeBound

/-- A text is one of the words that say yes. -/
def Affirms (final : List Char → List Char → Bool) (value : String) : Prop :=
  ∃ t, Text.Stripped value.toList t ∧
    String.ofList (Text.lowercase final t) ∈ ["1", "true", "yes", "on"]

theorem number?_eq_some_iff : number? value = some n ↔ IsNumber value n := by
  rw [number?, Text.natural?_eq_some_iff]
  constructor
  · rintro ⟨denotes, small⟩
    exact ⟨_, Text.stripped_trim _, denotes, small⟩
  · rintro ⟨t, stripped, denotes, small⟩
    rw [stripped.trim_eq]
    exact ⟨denotes, small⟩

theorem isYes_iff (final : List Char → List Char → Bool) :
    isYes value = true ↔ Affirms final value := by
  have plain : ∀ word ∈ ["1", "true", "yes", "on"], ∀ c ∈ word.toList, Text.IsPlain c := by
    simp [Text.IsPlain]
  have same : isYes value = true ↔
      ∃ word ∈ ["1", "true", "yes", "on"], Text.lower (Text.trim value.toList) = word.toList := by
    simp [isYes]
  rw [same]
  constructor
  · rintro ⟨word, mem, lower⟩
    refine ⟨_, Text.stripped_trim _, ?_⟩
    rw [(Text.lowercase_eq_iff final _ (plain word mem)).mpr lower, String.ofList_toList]
    exact mem
  · rintro ⟨t, stripped, mem⟩
    refine ⟨_, mem, ?_⟩
    rw [stripped.trim_eq, ← Text.lowercase_eq_iff final _ (plain _ mem), String.toList_ofList]

/-- What a variable for a number makes of its field. -/
inductive TakesNumber (env : Environment) (name : String) (current : Nat) : Nat → Prop
  | absent (unset : env.get? name = none) : TakesNumber env name current current
  | given {value : String} {n : Nat} (set : env.get? name = some value)
      (number : IsNumber value n) :
    TakesNumber env name current n

/-- A variable is set to a text that is no number. -/
structure Refuses (env : Environment) (name value : String) : Prop where
  set : env.get? name = some value
  bad : ∀ n, ¬ IsNumber value n

/-- What a variable for a flag makes of its field. -/
inductive TakesFlag (final : List Char → List Char → Bool) (env : Environment) (name : String)
    (current : Bool) : Bool → Prop
  | absent (unset : env.get? name = none) : TakesFlag final env name current current
  | raised {value : String} (set : env.get? name = some value) (yes : Affirms final value) :
    TakesFlag final env name current true
  | lowered {value : String} (set : env.get? name = some value) (no : ¬ Affirms final value) :
    TakesFlag final env name current false

theorem exists_takesNumber_or (env : Environment) (name : String) (current : Nat) :
    (∃ n, TakesNumber env name current n) ∨ ∃ value, Refuses env name value := by
  cases set : env.get? name with
  | none => exact .inl ⟨current, .absent set⟩
  | some value =>
    by_cases number : ∃ n, IsNumber value n
    · obtain ⟨n, number⟩ := number
      exact .inl ⟨n, .given set number⟩
    · exact .inr ⟨value, set, not_exists.mp number⟩

theorem exists_takesFlag (final : List Char → List Char → Bool) (env : Environment)
    (name : String) (current : Bool) : ∃ flag, TakesFlag final env name current flag := by
  cases set : env.get? name with
  | none => exact ⟨current, .absent set⟩
  | some value =>
    by_cases yes : Affirms final value
    · exact ⟨true, .raised set yes⟩
    · exact ⟨false, .lowered set yes⟩

theorem TakesNumber.numberFrom_eq (h : TakesNumber env name current n) :
    ∃ m, numberFrom env name = .ok m ∧ m.getD current = n := by
  unfold numberFrom
  cases h with
  | absent unset => exact ⟨none, by rw [unset], rfl⟩
  | given set number =>
    exact ⟨some n, by simp only [set, number?_eq_some_iff.mpr number], rfl⟩

theorem Refuses.numberFrom_eq (h : Refuses env name value) :
    numberFrom env name = .error (.badNumber name value) := by
  have bad : number? value = none :=
    Option.eq_none_iff_forall_ne_some.mpr fun n is => h.bad n (number?_eq_some_iff.mp is)
  simp only [numberFrom, h.set, bad]

theorem TakesFlag.flagFrom_eq (h : TakesFlag final env name flag flag') :
    flagFrom env name flag = flag' := by
  unfold flagFrom
  cases h with
  | absent unset =>
    rw [unset]
    rfl
  | raised set yes =>
    rw [set]
    exact (isYes_iff final).mpr yes
  | lowered set no =>
    rw [set]
    exact Bool.eq_false_iff.mpr fun yes => no ((isYes_iff final).mp yes)

/-- What the environment makes of settings, and with which outcome. The two numbers come first. -/
inductive Overridden (final : List Char → List Char → Bool) (env : Environment) (s : Settings) :
    Settings → Except SettingsError Unit → Prop
  | slotsRefused {value : String} (refused : Refuses env initialSlotsVariable value) :
    Overridden final env s s (.error (.badNumber initialSlotsVariable value))
  | lengthRefused {slots : Nat} {value : String}
    (first : TakesNumber env initialSlotsVariable s.initialSlots slots)
    (refused : Refuses env maxListLenVariable value) :
    Overridden final env s { s with initialSlots := slots }
      (.error (.badNumber maxListLenVariable value))
  | made {slots length : Nat} {audit leak : Bool}
    (first : TakesNumber env initialSlotsVariable s.initialSlots slots)
    (second : TakesNumber env maxListLenVariable s.maxListLen length)
    (third : TakesFlag final env auditScopesVariable s.auditScopes audit)
    (fourth : TakesFlag final env leakReportVariable s.leakReport leak) :
    Overridden final env s ⟨slots, length, audit, leak⟩ (.ok ())

theorem exists_overridden (final : List Char → List Char → Bool) (env : Environment)
    (s : Settings) : ∃ s' outcome, Overridden final env s s' outcome := by
  rcases exists_takesNumber_or env initialSlotsVariable s.initialSlots with
    ⟨slots, first⟩ | ⟨value, refused⟩
  · rcases exists_takesNumber_or env maxListLenVariable s.maxListLen with
      ⟨length, second⟩ | ⟨value, refused⟩
    · obtain ⟨audit, third⟩ := exists_takesFlag final env auditScopesVariable s.auditScopes
      obtain ⟨leak, fourth⟩ := exists_takesFlag final env leakReportVariable s.leakReport
      exact ⟨_, _, .made first second third fourth⟩
    · exact ⟨_, _, .lengthRefused first refused⟩
  · exact ⟨_, _, .slotsRefused refused⟩

theorem Overridden.override_eq (h : Overridden final env s s' outcome) :
    s.override env = (s', outcome) := by
  unfold override
  cases h with
  | slotsRefused refused => simp only [refused.numberFrom_eq]
  | lengthRefused first refused =>
    obtain ⟨_, read, rfl⟩ := first.numberFrom_eq
    simp only [read, refused.numberFrom_eq]
  | made first second third fourth =>
    obtain ⟨_, read, rfl⟩ := first.numberFrom_eq
    obtain ⟨_, read', rfl⟩ := second.numberFrom_eq
    simp only [read, read', third.flagFrom_eq, fourth.flagFrom_eq]

theorem override_eq_iff (final : List Char → List Char → Bool) :
    s.override env = (s', outcome) ↔ Overridden final env s s' outcome := by
  constructor
  · intro made
    obtain ⟨_, _, overridden⟩ := exists_overridden final env s
    cases overridden.override_eq.symm.trans made
    exact overridden
  · exact Overridden.override_eq

/-- A variable for a number is not set, or set to a number. -/
def Accepts (env : Environment) (name : String) : Prop :=
  ∀ value, env.get? name = some value → ∃ n, IsNumber value n

theorem TakesNumber.accepts (h : TakesNumber env name current n) : Accepts env name := by
  intro value set
  cases h with
  | absent unset => cases unset.symm.trans set
  | given set' number =>
    cases set'.symm.trans set
    exact ⟨n, number⟩

theorem Refuses.not_accepts (h : Refuses env name value) : ¬ Accepts env name := by
  intro accepts
  obtain ⟨n, number⟩ := accepts value h.set
  exact h.bad n number

theorem Overridden.ok_iff (h : Overridden final env s s' outcome) :
    outcome = .ok () ↔ Accepts env initialSlotsVariable ∧ Accepts env maxListLenVariable := by
  cases h with
  | slotsRefused refused => exact iff_of_false nofun fun accepts => refused.not_accepts accepts.1
  | lengthRefused _ refused => exact iff_of_false nofun fun accepts => refused.not_accepts accepts.2
  | made first second => exact iff_of_true rfl ⟨first.accepts, second.accepts⟩

/-- Overrides do exactly what the texts of the variables say, whichever sigmas end a word, and fail
exactly if one that should be a number is none. -/
theorem override_exact (final : List Char → List Char → Bool) (s : Settings) (env : Environment) :
    (∀ s' outcome, s.override env = (s', outcome) ↔ Overridden final env s s' outcome) ∧
    ((s.override env).2 = .ok () ↔
      Accepts env initialSlotsVariable ∧ Accepts env maxListLenVariable) ∧
    ∀ name value, (SettingsError.badNumber name value).message =
      name ++ " must be a non-negative integer, got '" ++ value ++ "'" :=
  ⟨fun _ _ => override_eq_iff final, ((override_eq_iff final).mp rfl).ok_iff, fun _ _ => rfl⟩

/-- The largest size is taken, with a wide space in front. One more is too much, and the flag is not
read any more. -/
theorem override_exact_overflow : ({} : Settings).override (.ofTexts
      [(initialSlotsVariable, "\u3000+0018446744073709551615\n"),
        (maxListLenVariable, " 18446744073709551616"), (auditScopesVariable, "YES")]) =
    ({ initialSlots := 0xFFFFFFFFFFFFFFFF },
      .error (.badNumber maxListLenVariable " 18446744073709551616")) := by
  refine ((override_exact (fun _ _ => true) {} _).1 _ _).mpr (.lengthRefused ?_ ?_)
  · exact .given (Environment.get?_ofTexts _ _) (number?_eq_some_iff.mp (by decide))
  · refine ⟨Environment.get?_ofTexts _ _, fun n number => ?_⟩
    have unread : number? " 18446744073709551616" = none := by decide
    cases unread.symm.trans (number?_eq_some_iff.mpr number)

end Settings

end ScopedHeap
