import ScopedHeap.Log.Filter
import ScopedHeap.Report

/-!
# The logger

The first installation decides where notices go and which of them pass.
-/
namespace ScopedHeap.Log

open Text (Environment)

def pathParts (path : String) : List String :=
  (path.splitOn "/").filter fun part => part ≠ "" ∧ part ≠ "."

def defaultName : String := "scoperc.log"

/-- The parts of the path of the log file. Where a path ends without a name, as one that is empty or
ends in a step up, the default name stands in. -/
def fileParts (path : String) : List String :=
  let parts := pathParts path
  match parts.getLast? with
  | none => [defaultName]
  | some ".." => parts.dropLast ++ [defaultName]
  | some _ => parts

/-- The way to a file from the starting directory, which steps up cancel; `none` if it leads out. -/
def resolve (parts : List String) : Option (List String) :=
  parts.foldlM (fun way part => if part = ".." then way.tail? else some (part :: way)) []
    |>.map List.reverse

def fileBelow? (path : String) : Option String :=
  if path.startsWith "/" && !(pathParts path).isEmpty then
    none
  else
    (resolve (fileParts path)).map ("/".intercalate ·)

def FieldValue.text : FieldValue → String
  | .number n => toString n
  | .flag b => toString b
  | .quoted s => "\"" ++ s ++ "\""
  | .plain s => s

def line (n : Notice) : String :=
  n.fields.foldl (fun text (name, value) => text ++ " " ++ name ++ "=" ++ FieldValue.text value)
    (n.severity.name ++ " " ++ n.topic.name ++ ": " ++ n.message)

structure Logger where
  settings : Settings
  filter : Filter
  deriving Inhabited

/-- The directives of the environment decide, if there are any that can be read; otherwise the
level of the settings does. -/
def Logger.install (env : Environment) (settings : Settings) : Logger where
  settings := settings
  filter := ((env.get? "RUST_LOG").bind Filter.parse?).getD (.ofLevel settings.level)

/-- Of several installations the first one counts. -/
def Logger.installOnce (env : Environment) (logger? : Option Logger) (settings : Settings) :
    Option Logger :=
  some (logger?.getD (.install env settings))

def installed? (env : Environment) (installations : List Settings) : Option Logger :=
  installations.foldl (Logger.installOnce env) none

def readiness (env : Environment) (installations : List Settings) : List Bool :=
  (List.range (installations.length + 1)).map fun n =>
    (installed? env (installations.take n)).isSome

def Logger.console (l : Logger) (p : Program) : List Notice :=
  if l.settings.path.isSome then [] else p.notices.filter l.filter.passes

def Logger.file? (l : Logger) : Option String := l.settings.path.bind fileBelow?

end ScopedHeap.Log
