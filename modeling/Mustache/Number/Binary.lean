namespace Mustache

structure Binary where
  negative : Bool
  mantissa : Nat
  exponent : Int
deriving DecidableEq, Repr

-- The numbers of a format have mantissas below `2 ^ bits` and exponents from `least` to `greatest`;
-- below `2 ^ (bits - 1)` only `least` goes with them.
structure BinaryFormat where
  bits : Nat
  least : Int
  greatest : Int
deriving DecidableEq, Repr

namespace BinaryFormat

def double : BinaryFormat := ⟨53, -1074, 971⟩

def single : BinaryFormat := ⟨24, -149, 104⟩

end BinaryFormat

structure Ratio where
  num : Nat
  den : Nat
deriving DecidableEq, Repr

namespace Ratio

def scale (r : Ratio) (base : Nat) (k : Int) : Ratio :=
  if 0 ≤ k then ⟨r.num * Nat.pow base k.toNat, r.den⟩
  else ⟨r.num, r.den * Nat.pow base (-k).toNat⟩

def mul (a b : Ratio) : Ratio := ⟨a.num * b.num, a.den * b.den⟩

def div (a b : Ratio) : Ratio := ⟨a.num * b.den, a.den * b.num⟩

def nearest (r : Ratio) : Nat :=
  let floor := r.num / r.den
  let twice := 2 * (r.num % r.den)
  if twice < r.den then floor
  else if r.den < twice then floor + 1
  else if floor % 2 = 0 then floor else floor + 1

def floorLog (r : Ratio) : Int :=
  let guess : Int := (r.num.log2 : Int) - (r.den.log2 : Int)
  let power := (Ratio.mk 1 1).scale 2 guess
  if power.num * r.den ≤ r.num * power.den then guess else guess - 1

end Ratio

namespace Binary

def isZero (b : Binary) : Bool := b.mantissa = 0

def magnitude (b : Binary) : Ratio := (Ratio.mk b.mantissa 1).scale 2 b.exponent

-- The number of the format next to a ratio, of two equally near ones that with an even mantissa.
-- There is none where the format ends below the ratio.
def round? (format : BinaryFormat) (negative : Bool) (r : Ratio) : Option Binary :=
  if r.num = 0 then some ⟨negative, 0, format.least⟩
  else
    let exponent := max format.least (r.floorLog - (format.bits - 1 : Nat))
    let mantissa := (r.scale 2 (-exponent)).nearest
    let carries := mantissa = Nat.pow 2 format.bits
    let mantissa := if carries then Nat.pow 2 (format.bits - 1) else mantissa
    let exponent := if carries then exponent + 1 else exponent
    if exponent ≤ format.greatest then some ⟨negative, mantissa, exponent⟩ else none

def mul? (format : BinaryFormat) (a b : Binary) : Option Binary :=
  round? format (a.negative != b.negative) (a.magnitude.mul b.magnitude)

def div? (format : BinaryFormat) (a b : Binary) : Option Binary :=
  round? format (a.negative != b.negative) (a.magnitude.div b.magnitude)

def widen (format : BinaryFormat) (b : Binary) : Binary :=
  (round? format b.negative b.magnitude).getD b

def equal (a b : Binary) : Bool := a = b || (a.isZero && b.isZero)

end Binary
end Mustache
