import Mustache.Number.Basic

namespace Mustache

structure Numeral where
  negative : Bool
  integer : List Nat
  fraction : Option (List Nat)
  exponent : Option Int
deriving DecidableEq, Repr

namespace Numeral

def digit? (c : Char) : Option Nat := if c.isDigit then some (c.toNat - '0'.toNat) else none

def digits (text : List Char) : List Nat × List Char :=
  ((text.takeWhile Char.isDigit).filterMap digit?, text.dropWhile Char.isDigit)

def ofDigits (digits : List Nat) : Nat := digits.foldl (fun n d => 10 * n + d) 0

def exponent? (text : List Char) : Option (Int × List Char) :=
  let (negative, unsigned) := match text with
    | '-' :: rest => (true, rest)
    | '+' :: rest => (false, rest)
    | _ => (false, text)
  match digits unsigned with
  | ([], _) => none
  | (power, rest) => some (if negative then -(ofDigits power : Int) else ofDigits power, rest)

def marked? (text : List Char) : Option (Option Int × List Char) :=
  match text with
  | 'e' :: rest => (exponent? rest).map fun found => (some found.1, found.2)
  | 'E' :: rest => (exponent? rest).map fun found => (some found.1, found.2)
  | _ => some (none, text)

-- The longest numeral of JSON at the front of a text: no sign but a minus, no zero before another
-- digit, and digits on both sides of a point.
def read? (text : List Char) : Option (Numeral × List Char) :=
  let (negative, unsigned) := match text with
    | '-' :: rest => (true, rest)
    | _ => (false, text)
  let (integer, rest) := match unsigned with
    | '0' :: rest => ([0], rest)
    | _ => digits unsigned
  if integer.isEmpty then none
  else
    let pointed := match rest with
      | '.' :: rest =>
        match digits rest with
        | ([], _) => none
        | (fraction, rest) => some (some fraction, rest)
      | _ => some (none, rest)
    match pointed with
    | none => none
    | some (fraction, rest) =>
      match marked? rest with
      | none => none
      | some (exponent, rest) => some (⟨negative, integer, fraction, exponent⟩, rest)

-- The digits that are kept: as many of the leading ones as make a number of 64 bits. `dropped`
-- counts those of the integer that are left out.
structure Significand where
  value : Nat
  dropped : Nat
deriving DecidableEq, Repr

def fits (value digit : Nat) : Bool := 10 * value + digit < Nat.pow 2 64

def integerPart (digits : List Nat) : Significand :=
  digits.foldl (fun s d =>
    if s.dropped = 0 && fits s.value d then ⟨10 * s.value + d, 0⟩ else ⟨s.value, s.dropped + 1⟩) ⟨0, 0⟩

def fractionPart (value : Nat) : List Nat → Nat × Nat
  | [] => (value, 0)
  | d :: rest =>
    if fits value d then
      let (value, places) := fractionPart (10 * value + d) rest
      (value, places + 1)
    else (value, 0)

def greatestPower : Nat := 308

def tenTo (power : Nat) : Option Binary := Binary.round? .double false ⟨Nat.pow 10 power, 1⟩

def overTenTo? (value : Binary) (power : Nat) : Option Binary :=
  (tenTo power).bind (value.div? .double)

def timesTenTo? (value : Binary) (power : Nat) : Option Binary :=
  (tenTo power).bind (value.mul? .double)

-- Division by a power of ten, in steps where the power itself is out of range. The second such step
-- leaves zero of any significand.
def shrink (value : Binary) (power : Nat) : Nat → Option Binary
  | 0 => some value
  | steps + 1 =>
    if power ≤ greatestPower then overTenTo? value power
    else (overTenTo? value greatestPower).bind (shrink · (power - greatestPower) steps)

def grow (value : Binary) (power : Nat) : Option Binary :=
  if power ≤ greatestPower then timesTenTo? value power
  else if value.isZero then some value else none

def toFloat? (n : Numeral) : Option Binary :=
  let whole := integerPart n.integer
  let (value, places) := fractionPart whole.value (n.fraction.getD [])
  let power := n.exponent.getD 0 + whole.dropped - places
  match Binary.round? .double n.negative ⟨value, 1⟩ with
  | none => none
  | some significand =>
    if 0 ≤ power then grow significand power.toNat else shrink significand (-power).toNat 4

-- An integer in range stays one. Everything else is a float, and so is the negative zero.
def toNumber? (n : Numeral) : Option Number :=
  let size := ofDigits n.integer
  let value : Int := if n.negative then -size else size
  if n.fraction.isNone && n.exponent.isNone && !(n.negative && size = 0) && Number.inRange value then
    some (.int value)
  else n.toFloat?.map .float

end Numeral
end Mustache
