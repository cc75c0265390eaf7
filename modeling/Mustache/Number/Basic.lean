import Mustache.Number.Binary

namespace Mustache

-- A number of the data: an integer or a float of double width. The two kinds are kept apart even
-- where they are equal in size.
inductive Number where
  | int (value : Int)
  | float (value : Binary)
deriving DecidableEq, Repr

namespace Number

def leastInt : Int := -9223372036854775808

def greatestInt : Int := 18446744073709551615

def inRange (value : Int) : Bool := leastInt ≤ value && value ≤ greatestInt

def equal : Number → Number → Bool
  | .int a, .int b => a = b
  | .float a, .float b => a.equal b
  | _, _ => false

end Number
end Mustache
