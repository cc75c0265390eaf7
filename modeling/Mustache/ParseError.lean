namespace Mustache

inductive ParseError where
  | mismatchedEnd (expected found : String)
  | unexpectedEnd (key : String)
  | unterminatedBlocks (keys : List String)
  | unclosedTag (offset : Nat)
  | duplicatePartial (key : String)
  | unusableDelimiters
deriving DecidableEq, Repr

-- An unusable pair is refused before any text is read and has no wording.
def ParseError.message? : ParseError → Option String
  | .mismatchedEnd expected found =>
    some ("end tag '" ++ found ++ "' does not match open tag '" ++ expected ++ "'")
  | .unexpectedEnd key => some ("end tag '" ++ key ++ "' has no matching open tag")
  | .unterminatedBlocks keys => some ("blocks '" ++ String.intercalate ", " keys ++ "' are not closed")
  | .unclosedTag offset => some ("tag opened at byte " ++ toString offset ++ " is never closed")
  | .duplicatePartial key => some ("partial '" ++ key ++ "' is defined more than once")
  | .unusableDelimiters => none

end Mustache
