import Mustache.Number.Numeral
import Mustache.Text.Search

namespace Mustache
open Text

-- Why data declined to be converted, and the place in it that is at fault. Line zero is no place.
structure Refusal where
  why : String
  line : Nat
  column : Nat
deriving DecidableEq, Repr

namespace Refusal

def endingNumber? (text : List Char) : Option (Nat × List Char) :=
  match text.takeWhile Char.isDigit with
  | [] => none
  | digits =>
    let value := Numeral.ofDigits (digits.reverse.filterMap Numeral.digit?)
    if value < Nat.pow 2 64 then some (value, text.dropWhile Char.isDigit) else none

def endingPlace? (text : List Char) : Option (Nat × Nat × List Char) :=
  match endingNumber? text with
  | none => none
  | some (column, rest) =>
    match strip? " column ".toList.reverse rest with
    | none => none
    | some rest =>
      match endingNumber? rest with
      | none => none
      | some (line, rest) =>
        (strip? " at line ".toList.reverse rest).map fun before => (line, column, before)

def read (text : String) : Refusal :=
  match endingPlace? text.toList.reverse with
  | none => ⟨text, 0, 0⟩
  | some (line, column, before) => ⟨String.ofList before.reverse, line, column⟩

-- Without a line the message is the reason alone, whatever column was given.
def message (refusal : Refusal) : String :=
  if refusal.line = 0 then refusal.why
  else refusal.why ++ " at line " ++ toString refusal.line ++ " column " ++ toString refusal.column

end Refusal
end Mustache
