import ScopedHeap.Log.Pattern
import ScopedHeap.Log.Settings
import ScopedHeap.Ref

/-!
# Directives

A directive says from which severity on notices pass, and of which notices it speaks:

* `level` speaks of all of them;
* `target=level` of those whose topic begins with the target;
* `target[span{field=value}]=level` of those that are given inside a span with that name and have
  that field with that value, where each part may be left out.

Nothing happens inside a span here, and values are looked for in spans, so directives with a span or
a value speak of no notice at all.
-/
namespace ScopedHeap.Log

/-- A threshold by name or by number. The outer `none` says that it is neither. -/
def threshold? (s : List Char) : Option (Option Severity) :=
  let byNumber :=
    match Text.natural? sizeBound s with
    | some 0 => some none
    | some 1 => some (some .error)
    | some 2 => some (some .warn)
    | some 3 => some (some .info)
    | some 4 => some (some .debug)
    | some 5 => some (some .trace)
    | _ => none
  match byNumber with
  | some level => some level
  | none =>
    if Text.lower s = ['o', 'f', 'f'] then some none
    else (Settings.level? (String.ofList s)).map some

structure FieldTest where
  name : List Char
  /-- The pattern of the values meant; any value if there is none. -/
  value : Option (List Char)
  deriving DecidableEq, Repr, Inhabited

def FieldTest.parse? (s : List Char) : Option FieldTest :=
  let name := s.takeWhile (· ≠ '=')
  let value :=
    match s.drop name.length with
    | [] => none
    | _ :: rest => some (rest.takeWhile (· ≠ '='))
  if !s.isEmpty && value.all Pattern.isValue then some ⟨name, value⟩ else none

structure Directive where
  /-- The beginning of the topics meant; any topic if there is none. -/
  target : Option (List Char)
  span : Option (List Char)
  field : Option FieldTest
  /-- The least severity that passes; `none` lets nothing pass. -/
  level : Option Severity
  deriving DecidableEq, Repr, Inhabited

namespace Directive

def mayBegin (c : Char) : Bool := c = '-' || c = ':' || c = '_' || Text.isAlphanumeric c

/-- A directive as it is written, and the same without white space around it. The parts are found in
the one and cut out of the other, by their distance from the beginning; so only a directive with
nothing before it means what it says. -/
structure Source where
  whole : List Char
  bare : List Char

def Source.onward (src : Source) (tail : List Char) : List Char :=
  Text.dropBytes (Text.size src.bare - Text.size tail) src.whole

def Source.between (src : Source) (tail shorter : List Char) : List Char :=
  Text.takeBytes (Text.size tail - Text.size shorter) (src.onward tail)

/-- The end of a directive. Without a threshold everything passes. -/
def Source.level? (src : Source) : List Char → Option (Option Severity)
  | [] => some (some .trace)
  | '=' :: tail =>
    let level := src.onward tail
    if level.isEmpty then some (some .trace) else threshold? level
  | _ => none

/-- What follows the bracket of a directive. -/
def Source.bracket? (src : Source) (target : Option (List Char)) (tail : List Char) :
    Option Directive :=
  match tail.dropWhile fun c => c ≠ ']' && c ≠ '\x7b' with
  | ']' :: rest => do
    let level ← src.level? rest
    return ⟨target, some (src.between tail (']' :: rest)), none, level⟩
  | '\x7b' :: inner =>
    let span := src.between tail ('\x7b' :: inner)
    match inner.dropWhile (· ≠ '\x7d') with
    | '\x7d' :: ']' :: rest => do
      let field ← FieldTest.parse? (src.between inner ('\x7d' :: ']' :: rest))
      let level ← src.level? rest
      return ⟨target, if span.isEmpty then none else some span, some field, level⟩
    | _ => none
  | _ => none

def parse? (s : List Char) : Option Directive :=
  let src : Source := ⟨s, Text.trim s⟩
  let rest := src.bare.dropWhile fun c => c ≠ '=' && c ≠ '['
  let target := src.between src.bare rest
  match src.bare with
  | '[' :: tail => src.bracket? none tail
  | c :: _ =>
    if mayBegin c then
      match rest with
      | [] =>
        match threshold? s with
        | some level => some ⟨none, none, none, level⟩
        | none => some ⟨some s, none, none, some .trace⟩
      | '[' :: tail => src.bracket? (some target) tail
      | rest => (src.level? rest).map fun level => ⟨some target, none, none, level⟩
    else
      none
  | [] => none

/-- Whether a directive speaks of a notice, whose message counts among its fields. -/
def covers (d : Directive) (n : Notice) : Bool :=
  let fields := "message" :: n.fields.map (·.1)
  d.span.isNone && d.target.all (·.isPrefixOf n.topic.name.toList) &&
    d.field.all fun f => f.value.isNone && fields.contains (String.ofList f.name)

def reach (d : Directive) : Nat := d.target.elim 0 (·.length + 1)

def fieldName (d : Directive) : List Char := d.field.elim [] (·.name)

/-- Whether a directive comes before another one that speaks of the same notice: the longer target
counts first, then a field, the later one in the alphabet. -/
def outranks (d e : Directive) : Bool :=
  e.reach < d.reach ||
    d.reach = e.reach && e.fieldName.lex d.fieldName fun a b => a.toNat < b.toNat

end Directive

end ScopedHeap.Log
