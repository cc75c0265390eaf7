import Mustache.Number.Binary

namespace Mustache

structure Decimal where
  digits : Nat
  exponent : Int
deriving DecidableEq, Repr

namespace Binary

-- The ratios that round to a number reach half way to its neighbours. All three are in units of a
-- quarter of its last place. The lower neighbour of a power of two is nearer, unless the numbers
-- below have the same exponent.
structure Reach where
  low : Nat
  centre : Nat
  high : Nat
  closed : Bool

def reach (format : BinaryFormat) (b : Binary) : Reach :=
  let halved := b.mantissa = Nat.pow 2 (format.bits - 1) && format.least < b.exponent
  { low := 4 * b.mantissa - (if halved then 1 else 2)
    centre := 4 * b.mantissa
    high := 4 * b.mantissa + 2
    closed := b.mantissa % 2 = 0 }

-- The multiple of `10 ^ k` within reach that is nearest to the number, of two equally near ones the
-- even multiple. If any multiple is within reach, so is one of the two neighbours of the number.
def onGrid? (format : BinaryFormat) (b : Binary) (k : Int) : Option Nat :=
  let reach := b.reach format
  let unit := (Ratio.mk 1 1).scale 2 (b.exponent - 2)
  let grid := (Ratio.mk 1 1).scale 10 k
  let value (n : Nat) := n * unit.num * grid.den
  let point (n : Nat) := n * grid.num * unit.den
  let within (n : Nat) : Bool :=
    if reach.closed then value reach.low ≤ point n && point n ≤ value reach.high
    else value reach.low < point n && point n < value reach.high
  let below := value reach.centre / (grid.num * unit.den)
  let short := value reach.centre - point below
  let excess := point (below + 1) - value reach.centre
  match within below, within (below + 1) with
  | true, true =>
    some (if short < excess || (short = excess && below % 2 = 0) then below else below + 1)
  | true, false => some below
  | false, true => some (below + 1)
  | false, false => none

def shortestFrom (format : BinaryFormat) (b : Binary) : Nat → Int → Decimal
  | 0, k => ⟨0, k⟩
  | tries + 1, k =>
    match b.onGrid? format k with
    | some digits => ⟨digits, k⟩
    | none => shortestFrom format b tries (k - 1)

-- The decimal of fewest digits that rounds to the number, and among those the nearest one. The
-- first grid is coarser than the number is large, and eighteen places further down the points stand
-- closer than two neighbours.
def shortest (format : BinaryFormat) (b : Binary) : Decimal :=
  let magnitude := b.exponent + b.mantissa.log2
  b.shortestFrom format 24 (Int.fdiv (magnitude * 30103) 100000 + 2)

end Binary
end Mustache
