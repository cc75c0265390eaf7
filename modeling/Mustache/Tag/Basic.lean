import Mustache.Delimiters

namespace Mustache
open Text

-- What a scan finds. Offsets are bytes of the scanned source.
inductive Tag where
  | text (text : String)
  | interpolation (key : String) (escaped : Bool)
  | sectionStart (inverted : Bool) (key : String) (contentStart : Nat) (delimiters : Delimiters)
  | definitionStart (key : String)
  | reference (key indent : String)
  | blockEnd (key : String) (tagStart : Nat)
  | delimiterChange (delimiters : Delimiters)
deriving DecidableEq, Repr

namespace Tag

structure Span where
  start : Nat
  stop : Nat
deriving DecidableEq, Repr

def isInterpolation : Tag → Bool
  | .interpolation .. => true
  | _ => false

def keyOf (text : List Char) : String := String.ofList (trim text)

def braced? : List Char → Option (List Char)
  | '{' :: rest =>
    match rest.reverse with
    | '}' :: inner => if rest.contains '\n' then none else some inner.reverse
    | _ => none
  | _ => none

-- The meaning of a body under the active pair. A comment means nothing, nor does a change to
-- something that is no usable pair.
def ofBody (active : Delimiters) (span : Span) (indent : List Char) : List Char → Option Tag
  | [] => some (.interpolation "" true)
  | c :: rest =>
    match c with
    | '!' => none
    | '#' => some (.sectionStart false (keyOf rest) span.stop active)
    | '^' => some (.sectionStart true (keyOf rest) span.stop active)
    | '<' => some (.definitionStart (keyOf rest))
    | '>' => some (.reference (keyOf rest) (String.ofList indent))
    | '/' => some (.blockEnd (keyOf rest) span.start)
    | '&' => some (.interpolation (keyOf rest) false)
    | '=' =>
      match Delimiters.ofChange? (c :: rest) with
      | none => none
      | some pair => if pair.isUsable then some (.delimiterChange pair) else none
    | _ =>
      match if active.isStandard then braced? (c :: rest) else none with
      | some inner => some (.interpolation (keyOf inner) false)
      | none => some (.interpolation (keyOf (c :: rest)) true)

end Tag
end Mustache
