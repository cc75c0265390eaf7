import Mustache.Number.Numeral

namespace Mustache.Numeral

def readWhole? (text : List Char) : Option Numeral :=
  let (negative, unsigned) := match text with
    | '-' :: rest => (true, rest)
    | '+' :: rest => (false, rest)
    | _ => (false, text)
  let (integer, rest) := digits unsigned
  let (fraction, rest) := match rest with
    | '.' :: rest => digits rest
    | _ => ([], rest)
  if integer.isEmpty && fraction.isEmpty then none
  else
    match marked? rest with
    | some (exponent, []) => some ⟨negative, integer, some fraction, exponent⟩
    | _ => none

-- The number of the format next to a numeral. Where its first place is far from those of the
-- format, the power of ten is not worked out.
def nearest? (format : BinaryFormat) (n : Numeral) : Option Binary :=
  let fraction := n.fraction.getD []
  let size := ofDigits (n.integer ++ fraction)
  let power := n.exponent.getD 0 - fraction.length
  let order := power + (toString size).length
  if size = 0 || order < -400 then some ⟨n.negative, 0, format.least⟩
  else if 400 < order then none
  else Binary.round? format n.negative ((Ratio.mk size 1).scale 10 power)

-- The float that a text names. The inner result is absent for the infinities, for numbers out of
-- range, and for the text that says it is no number.
def floatOf? (format : BinaryFormat) (text : List Char) : Option (Option Binary) :=
  let unsigned := match text with
    | '-' :: rest => rest
    | '+' :: rest => rest
    | _ => text
  let word := String.ofList (unsigned.map Char.toLower)
  if word = "nan" || word = "inf" || word = "infinity" then some none
  else (readWhole? text).map (nearest? format)

end Mustache.Numeral
