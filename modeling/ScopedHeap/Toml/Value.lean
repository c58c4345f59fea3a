/-!
# TOML values and tables

A document is a table of values. Tables come about in four ways, and these decide how they may be
added to later: a table with a header of its own is complete but for the statements under that
header; one that was only named on the way to another header may still get a header; one made by a
dotted key takes further dotted keys; and an inline table is closed.
-/
namespace ScopedHeap.Toml

inductive Origin where
  | header
  | onPath
  | dotted
  | inline
  deriving DecidableEq, Repr, Inhabited

inductive Value where
  | string (s : String)
  | integer (i : Int)
  | float (text : String)
  | boolean (b : Bool)
  | moment (text : String)
  | array (items : List Value)
  | table (origin : Origin) (entries : List (String × Value))
  /-- An array of tables with headers, latest first. -/
  | tables (items : List (List (String × Value)))
  deriving Repr, Inhabited

abbrev Entries := List (String × Value)

namespace Entries

def put (entries : Entries) (key : String) (v : Value) : Entries :=
  match entries with
  | [] => [(key, v)]
  | (k, old) :: rest => if k = key then (k, v) :: rest else (k, old) :: put rest key v

def add? (key : String) (v : Value) (entries : Entries) : Option Entries :=
  match entries.lookup key with
  | some _ => none
  | none => some (entries.put key v)

/-- Changes the table that a path of keys leads to. A table that is missing on the way is made, and
of an array of tables the latest is meant. `mayEnter` says which tables the path may lead through;
what is no table ends it. -/
def modifyAt? (made : Origin) (mayEnter : Origin → Bool) (f : Origin → Entries → Option Entries) :
    List String → (origin : Origin) → Entries → Option Entries
  | [], origin, entries => f origin entries
  | key :: path, _, entries =>
    match entries.lookup key with
    | none => do
      let inner ← modifyAt? made mayEnter f path made []
      return entries.put key (.table made inner)
    | some (.table origin inner) =>
      if mayEnter origin then do
        let inner ← modifyAt? made mayEnter f path origin inner
        return entries.put key (.table origin inner)
      else
        none
    | some (.tables (latest :: earlier)) => do
      let latest ← modifyAt? made mayEnter f path .header latest
      return entries.put key (.tables (latest :: earlier))
    | some _ => none

/-- Adds a value under a dotted key. The last table on the path has to be one that dotted keys have
made. -/
def addDotted? (path : List String) (key : String) (v : Value) (entries : Entries) :
    Option Entries :=
  match path with
  | [] => add? key v entries
  | _ =>
    modifyAt? .dotted (fun origin => origin = .onPath ∨ origin = .dotted)
      (fun origin inner => if origin = .dotted then add? key v inner else none) path .header entries

def modifyUnder? (path : List String) (f : Entries → Option Entries) (entries : Entries) :
    Option Entries :=
  modifyAt? .onPath (fun origin => origin ≠ .inline) (fun _ => f) path .header entries

def openTable? (key : String) (entries : Entries) : Option Entries :=
  match entries.lookup key with
  | none => some (entries.put key (.table .header []))
  | some (.table .onPath inner) => some (entries.put key (.table .header inner))
  | some _ => none

def openElement? (key : String) (entries : Entries) : Option Entries :=
  match entries.lookup key with
  | none => some (entries.put key (.tables [[]]))
  | some (.tables items) => some (entries.put key (.tables ([] :: items)))
  | some _ => none

end Entries

end ScopedHeap.Toml
