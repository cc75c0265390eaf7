import Mustache.Number.Basic
import Mustache.Number.Shortest

namespace Mustache

-- Floats from `10 ^ least` up to, but not including, `10 ^ (greatest + 1)` are written with all
-- their places, the others with a power of ten.
structure FloatStyle where
  format : BinaryFormat
  least : Int
  greatest : Int

namespace FloatStyle

def double : FloatStyle := ⟨.double, -5, 15⟩

def single : FloatStyle := ⟨.single, -6, 12⟩

def positional (digits : List Char) (power : Int) : List Char :=
  let places := digits.length
  if power < 0 then '0' :: '.' :: List.replicate (-power - 1).toNat '0' ++ digits
  else if places ≤ power.toNat + 1 then
    digits ++ List.replicate (power.toNat + 1 - places) '0' ++ ['.', '0']
  else digits.take (power.toNat + 1) ++ '.' :: digits.drop (power.toNat + 1)

def scientific (digits : List Char) (power : Int) : List Char :=
  let mantissa := match digits with
    | d :: e :: rest => d :: '.' :: e :: rest
    | _ => digits
  mantissa ++ 'e' :: (if power < 0 then '-' else '+') :: (toString power.natAbs).toList

def magnitude (style : FloatStyle) (value : Binary) : List Char :=
  if value.isZero then ['0', '.', '0']
  else
    let decimal := value.shortest style.format
    let digits := (toString decimal.digits).toList
    let power := decimal.exponent + digits.length - 1
    if style.least ≤ power && power ≤ style.greatest then positional digits power
    else scientific digits power

def write (style : FloatStyle) (value : Binary) : String :=
  String.ofList (if value.negative then '-' :: style.magnitude value else style.magnitude value)

end FloatStyle

namespace Number

def toText : Number → String
  | .int value => toString value
  | .float value => FloatStyle.double.write value

end Number
end Mustache
