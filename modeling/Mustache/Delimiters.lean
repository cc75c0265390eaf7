import Mustache.Text.Blank

namespace Mustache
open Text

structure Delimiters where
  opening : String
  closing : String
deriving DecidableEq, Repr

namespace Delimiters

def standard : Delimiters := ⟨"\x7b\x7b", "\x7d\x7d"⟩

def isStandard (pair : Delimiters) : Bool := pair = standard

-- Delimiters are searched for with compiled patterns, and the pattern engine refuses one that takes
-- more than ten mebibytes, at 32 bytes for each byte of a delimiter. This is its default and no rule
-- of the syntax: the proofs need only that the standard pair is usable.
def sizeLimit : Nat := 327680

def isUsable (pair : Delimiters) : Bool :=
  pair.opening.utf8ByteSize ≤ sizeLimit && pair.closing.utf8ByteSize ≤ sizeLimit

theorem standard_usable : standard.isUsable = true := by decide +kernel

def isPadding (c : Char) : Bool := c = ' ' || c = '\t'

def ofWords? (text : List Char) : Option Delimiters :=
  let fromOpening := text.dropWhile isPadding
  let opening := fromOpening.takeWhile (!isSpace ·)
  let fromClosing := (fromOpening.dropWhile (!isSpace ·)).dropWhile isPadding
  let closing := fromClosing.takeWhile (!isSpace ·)
  let rest := (fromClosing.dropWhile (!isSpace ·)).dropWhile isPadding
  if opening.isEmpty || closing.isEmpty || !rest.isEmpty then none
  else some ⟨String.ofList opening, String.ofList closing⟩

-- The body of a change tag: two words between a first and a last equals sign, which are not the
-- same character.
def ofChange? : List Char → Option Delimiters
  | '=' :: rest =>
    match rest.reverse with
    | '=' :: kept => ofWords? kept.reverse
    | _ => none
  | _ => none

end Delimiters
end Mustache
