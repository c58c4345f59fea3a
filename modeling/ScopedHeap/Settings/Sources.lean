import ScopedHeap.Settings
import ScopedHeap.Text
import ScopedHeap.Toml.Document

/-!
# Where settings come from

Settings are read from the table `heap` of a TOML document, in which unknown keys are ignored and
missing ones have their defaults. Variables of the environment then override single fields.
-/
namespace ScopedHeap

open Text (Environment)

inductive SettingsError where
  /-- There is no such file, or it is no text. -/
  | unreadable
  | malformed
  | badNumber (name value : String)
  deriving DecidableEq, Repr, Inhabited

def SettingsError.message : SettingsError → String
  | unreadable => "Failed to read config file"
  | malformed => "Failed to parse config"
  | badNumber name value => s!"{name} must be a non-negative integer, got '{value}'"

namespace Settings

/-- A size, where a value is given; sizes are not negative. -/
def size? (default : Nat) : Option Toml.Value → Option Nat
  | none => some default
  | some (.integer i) => if 0 ≤ i then some i.toNat else none
  | some _ => none

def flag? (default : Bool) : Option Toml.Value → Option Bool
  | none => some default
  | some (.boolean b) => some b
  | some _ => none

def ofFields? (initialSlots maxListLen auditScopes leakReport : Option Toml.Value) :
    Option Settings := do
  let dflt : Settings := {}
  return {
    initialSlots := ← size? dflt.initialSlots initialSlots
    maxListLen := ← size? dflt.maxListLen maxListLen
    auditScopes := ← flag? dflt.auditScopes auditScopes
    leakReport := ← flag? dflt.leakReport leakReport }

/-- The fields are given by name in a table, or by position in an array. A moment counts as a table
without any of them. -/
def ofValue? : Toml.Value → Option Settings
  | .table _ entries =>
    ofFields? (entries.lookup "initial_slots") (entries.lookup "max_list_len")
      (entries.lookup "audit_scopes") (entries.lookup "leak_report")
  | .array items => ofFields? items[0]? items[1]? items[2]? items[3]?
  | .moment _ => some {}
  | _ => none

def parse (text : String) : Except SettingsError Settings :=
  match Toml.parse? text with
  | none => .error .malformed
  | some root =>
    match root.lookup "heap" with
    | none => .ok {}
    | some v =>
      match ofValue? v with
      | some s => .ok s
      | none => .error .malformed

/-- The settings in a file, given its bytes if there is such a file. -/
def load (file : Option (List UInt8)) : Except SettingsError Settings :=
  match file.bind Text.decode? with
  | none => .error .unreadable
  | some text => parse text

def number? (value : String) : Option Nat := Text.natural? sizeBound (Text.trim value.toList)

def isYes (value : String) : Bool :=
  [['1'], ['t', 'r', 'u', 'e'], ['y', 'e', 's'], ['o', 'n']].contains
    (Text.lower (Text.trim value.toList))

def numberFrom (env : Environment) (name : String) : Except SettingsError (Option Nat) :=
  match env.get? name with
  | none => .ok none
  | some value =>
    match number? value with
    | some n => .ok (some n)
    | none => .error (.badNumber name value)

def flagFrom (env : Environment) (name : String) (current : Bool) : Bool :=
  (env.get? name).elim current isYes

def initialSlotsVariable : String := "SCOPERC_INITIAL_SLOTS"
def maxListLenVariable : String := "SCOPERC_MAX_LIST_LEN"
def auditScopesVariable : String := "SCOPERC_AUDIT_SCOPES"
def leakReportVariable : String := "SCOPERC_LEAK_REPORT"

/-- The settings after the overrides, and the error of the first variable that is no number. The
overrides before that variable stay in force, and those after it are not made. -/
def override (s : Settings) (env : Environment) : Settings × Except SettingsError Unit :=
  match numberFrom env initialSlotsVariable with
  | .error e => (s, .error e)
  | .ok slots =>
    let s := { s with initialSlots := slots.getD s.initialSlots }
    match numberFrom env maxListLenVariable with
    | .error e => (s, .error e)
    | .ok length =>
      ({ s with
          maxListLen := length.getD s.maxListLen
          auditScopes := flagFrom env auditScopesVariable s.auditScopes
          leakReport := flagFrom env leakReportVariable s.leakReport },
        .ok ())

def ofEnvironment (env : Environment) : Except SettingsError Settings :=
  match ({} : Settings).override env with
  | (s, .ok ()) => .ok s
  | (_, .error e) => .error e

end Settings

end ScopedHeap
