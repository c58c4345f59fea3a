import ScopedHeap.Log.Pattern.Reader

/-!
# Patterns

A directive may ask for the value of a field with a pattern, in the usual notation of regular
expressions. Values are only found in spans, so nothing is ever matched here; what counts is whether
a text is a pattern at all.

A pattern stands for text and may not match a part of a character. What would take a table of case,
of words or of scripts beyond ASCII is refused.
-/
namespace ScopedHeap.Log.Pattern

def isNumber (s : List Char) : Bool :=
  let rest := s.dropWhile Char.isDigit
  let fraction :=
    match rest with
    | '.' :: rest => rest.takeWhile Char.isDigit
    | _ => []
  let power :=
    match rest with
    | '.' :: rest => rest.dropWhile Char.isDigit
    | rest => rest
  let digits :=
    match power with
    | _ :: '+' :: digits | _ :: '-' :: digits => digits
    | _ :: digits => digits
    | [] => ['0']
  ["inf", "infinity", "nan"].contains (String.ofList (Text.lower s)) ||
    (s.head?.any Char.isDigit || !fraction.isEmpty) &&
      power.head?.all (fun c => c = 'e' || c = 'E') && !digits.isEmpty && digits.all Char.isDigit

/-- Whether a text can be asked for as the value of a field. A number may have a plus sign, with
which no pattern begins; all other numbers are patterns too. -/
def isValue : List Char → Bool
  | '+' :: s => isNumber s
  | s => State.completes {} s

end ScopedHeap.Log.Pattern
