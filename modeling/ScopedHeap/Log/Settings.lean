import ScopedHeap.Notice
import ScopedHeap.Text

/-!
# Settings of the logger
-/
namespace ScopedHeap.Log

open Text (Environment)

structure Settings where
  level : Severity := .info
  /-- Where notices are written; to the console if nowhere else. -/
  path : Option String := none
  json : Bool := false
  /-- Report the beginning and the end of spans. -/
  spans : Bool := false
  deriving DecidableEq, Repr, Inhabited

namespace Settings

def performance : Settings := { level := .error }

def debug : Settings := { level := .trace, path := some "scoperc.log", spans := true }

def level? (name : String) : Option Severity :=
  [Severity.trace, .debug, .info, .warn, .error].find? fun level =>
    Text.lower level.name.toList == Text.lower name.toList

def ofEnvironment (env : Environment) : Settings where
  level := ((env.get? "SCOPERC_LOG_LEVEL").bind level?).getD .info
  path := env.get? "SCOPERC_LOG_FILE"
  json := (env.get? "SCOPERC_LOG_JSON").isSome
  spans := (env.get? "SCOPERC_LOG_SPANS").isSome

end Settings

end ScopedHeap.Log
