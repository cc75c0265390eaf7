import Mathlib.Data.List.Basic
import Mustache.Number.Numeral
import Mustache.Number.Text

namespace Mustache

namespace Numeral
variable {text rest left : List Char} {negative : Bool} {fraction : Option (List Nat)}
  {exponent : Option Int}

def Stops (rest : List Char) : Prop :=
  ∀ c ∈ rest.head?, c.isDigit = false ∧ c ≠ '.' ∧ c ≠ 'e' ∧ c ≠ 'E'

theorem stops_nil : Stops [] := nofun

theorem stops_cons (other : c.isDigit = false ∧ c ≠ '.' ∧ c ≠ 'e' ∧ c ≠ 'E') (text : List Char) :
    Stops (c :: text) := by
  intro d here
  cases here
  exact other

theorem digits_digit (digit : c.isDigit = true) (text : List Char) :
    digits (c :: text) = ((c.toNat - '0'.toNat) :: (digits text).1, (digits text).2) := by
  simp [digits, digit?, digit]

theorem digits_other (other : c.isDigit = false) (text : List Char) :
    digits (c :: text) = ([], c :: text) := by
  simp [digits, other]

theorem digits_append (stops : Stops rest) (text : List Char) :
    digits (text ++ rest) = ((digits text).1, (digits text).2 ++ rest) := by
  induction text with
  | nil =>
    cases rest with
    | nil => rfl
    | cons c rest => exact digits_other (stops c rfl).1 rest
  | cons c text ih =>
    cases digit : c.isDigit with
    | false => rw [List.cons_append, digits_other digit, digits_other digit, List.cons_append]
    | true => rw [List.cons_append, digits_digit digit, digits_digit digit, ih]

-- The steps of `read?`, each by itself, so that each can be followed when text is added at the end:
-- the power behind its sign, what stands behind the point, the digits before it, and all that stands
-- behind the sign of the numeral.
def power? (negative : Bool) (text : List Char) : Option (Int × List Char) :=
  match digits text with
  | ([], _) => none
  | (power, rest) => some (if negative then -(ofDigits power : Int) else ofDigits power, rest)

def fraction? (text : List Char) : Option (Option (List Nat) × List Char) :=
  match text with
  | '.' :: rest =>
    match digits rest with
    | ([], _) => none
    | (fraction, rest) => some (some fraction, rest)
  | _ => some (none, text)

def integerOf (text : List Char) : List Nat × List Char :=
  match text with
  | '0' :: rest => ([0], rest)
  | _ => digits text

def unsigned? (negative : Bool) (text : List Char) : Option (Numeral × List Char) :=
  if (integerOf text).1.isEmpty then none
  else
    match fraction? (integerOf text).2 with
    | none => none
    | some (fraction, rest) =>
      match marked? rest with
      | none => none
      | some (exponent, rest) => some (⟨negative, (integerOf text).1, fraction, exponent⟩, rest)

theorem exponent_minus (text : List Char) : exponent? ('-' :: text) = power? true text := rfl

theorem exponent_plus (text : List Char) : exponent? ('+' :: text) = power? false text := rfl

theorem exponent_plain (minus : c ≠ '-') (plus : c ≠ '+') (text : List Char) :
    exponent? (c :: text) = power? false (c :: text) := by
  unfold exponent? power?
  split
  rename_i negative unsigned same
  split at same
  · rename_i front
    cases front
    exact absurd rfl minus
  · rename_i front
    cases front
    exact absurd rfl plus
  · cases same
    rfl

theorem marked_plain (small : c ≠ 'e') (great : c ≠ 'E') (text : List Char) :
    marked? (c :: text) = some (none, c :: text) := by
  simp [marked?, small, great]

theorem fraction_plain (other : c ≠ '.') (text : List Char) :
    fraction? (c :: text) = some (none, c :: text) := by
  simp [fraction?, other]

theorem integerOf_plain (other : c ≠ '0') (text : List Char) :
    integerOf (c :: text) = digits (c :: text) := by
  simp [integerOf, other]

theorem read_minus (text : List Char) : read? ('-' :: text) = unsigned? true text := rfl

theorem read_plain (minus : c ≠ '-') (text : List Char) :
    read? (c :: text) = unsigned? false (c :: text) := by
  unfold read?
  split
  rename_i negative unsigned same
  split at same
  · rename_i front
    cases front
    exact absurd rfl minus
  · cases same
    rfl

theorem power_append (stops : Stops rest) (found : power? negative text = some (power, left)) :
    power? negative (text ++ rest) = some (power, left ++ rest) := by
  unfold power? at found ⊢
  rw [digits_append stops]
  cases run : digits text with
  | mk power behind =>
    rw [run] at found
    cases power with
    | nil => cases found
    | cons d more =>
      cases found
      rfl

theorem exponent_append (stops : Stops rest) (found : exponent? text = some (power, left)) :
    exponent? (text ++ rest) = some (power, left ++ rest) := by
  cases text with
  | nil => cases found
  | cons c text =>
    by_cases minus : c = '-'
    · subst minus
      rw [exponent_minus] at found
      rw [List.cons_append, exponent_minus, power_append stops found]
    · by_cases plus : c = '+'
      · subst plus
        rw [exponent_plus] at found
        rw [List.cons_append, exponent_plus, power_append stops found]
      · rw [exponent_plain minus plus] at found
        rw [List.cons_append, exponent_plain minus plus]
        exact power_append stops found

theorem marked_append (stops : Stops rest) (found : marked? text = some (exponent, left)) :
    marked? (text ++ rest) = some (exponent, left ++ rest) := by
  have behind {text : List Char}
      (found : (exponent? text).map (fun read => (some read.1, read.2)) = some (exponent, left)) :
      (exponent? (text ++ rest)).map (fun read => (some read.1, read.2)) =
        some (exponent, left ++ rest) := by
    obtain ⟨⟨power, after⟩, read, same⟩ := Option.map_eq_some_iff.mp found
    cases same
    rw [exponent_append stops read]
    rfl
  cases text with
  | nil =>
    cases found
    cases rest with
    | nil => rfl
    | cons c rest =>
      obtain ⟨-, -, small, great⟩ := stops c rfl
      exact marked_plain small great rest
  | cons c text =>
    by_cases small : c = 'e'
    · subst small
      exact behind found
    · by_cases great : c = 'E'
      · subst great
        exact behind found
      · rw [marked_plain small great] at found
        cases found
        exact marked_plain small great _

theorem fraction_append (stops : Stops rest) (found : fraction? text = some (fraction, left)) :
    fraction? (text ++ rest) = some (fraction, left ++ rest) := by
  cases text with
  | nil =>
    cases found
    cases rest with
    | nil => rfl
    | cons c rest => exact fraction_plain (stops c rfl).2.1 rest
  | cons c text =>
    by_cases point : c = '.'
    · subst point
      unfold fraction? at found ⊢
      simp only [List.cons_append, digits_append stops]
      cases run : digits text with
      | mk places behind =>
        simp only [run] at found
        cases places with
        | nil => cases found
        | cons d more =>
          cases found
          rfl
    · rw [fraction_plain point] at found
      cases found
      exact fraction_plain point _

theorem integerOf_append (stops : Stops rest) (full : (integerOf text).1 ≠ []) :
    integerOf (text ++ rest) = ((integerOf text).1, (integerOf text).2 ++ rest) := by
  cases text with
  | nil => exact absurd rfl full
  | cons c text =>
    by_cases zero : c = '0'
    · subst zero
      rfl
    · rw [List.cons_append, integerOf_plain zero, integerOf_plain zero, ← List.cons_append,
        digits_append stops]

theorem unsigned_append (stops : Stops rest) (found : unsigned? negative text = some (n, left)) :
    unsigned? negative (text ++ rest) = some (n, left ++ rest) := by
  unfold unsigned? at found ⊢
  split at found
  · cases found
  · rename_i full
    have whole := integerOf_append stops (fun empty => full (List.isEmpty_iff.mpr empty))
    rw [whole, if_neg full]
    split at found
    · cases found
    · rename_i fraction behind point
      rw [fraction_append stops point]
      split at found
      · cases found
      · rename_i exponent after mark
        cases found
        simp only [marked_append stops mark]

theorem read_append (stops : Stops rest) (found : read? text = some (n, left)) :
    read? (text ++ rest) = some (n, left ++ rest) := by
  cases text with
  | nil => cases found
  | cons c text =>
    by_cases minus : c = '-'
    · subst minus
      rw [read_minus] at found
      rw [List.cons_append, read_minus, unsigned_append stops found]
    · rw [read_plain minus] at found
      rw [List.cons_append, read_plain minus]
      exact unsigned_append stops found

theorem read_head (found : read? text = some (n, left)) :
    ∃ c rest, text = c :: rest ∧ (c = '-' ∨ c.isDigit = true) := by
  cases text with
  | nil => cases found
  | cons c rest =>
    refine ⟨c, rest, rfl, ?_⟩
    by_cases minus : c = '-'
    · exact Or.inl minus
    · cases digit : c.isDigit with
      | true => exact Or.inr rfl
      | false =>
        have zero : c ≠ '0' := by
          intro same
          rw [same] at digit
          cases digit
        rw [read_plain minus, unsigned?, integerOf_plain zero, digits_other digit] at found
        cases found

def decimal (n : Nat) : List Nat := (Nat.toDigits 10 n).map fun c => c.toNat - '0'.toNat

theorem isDigit_decimal (member : c ∈ Nat.toDigits 10 n) : c.isDigit = true :=
  Nat.isDigit_of_mem_toDigits (by decide) (by decide) member

theorem zero_of_head (front : (Nat.toDigits 10 n).head? = some '0') : n = 0 := by
  induction n using Nat.strongRecOn with
  | ind n ih =>
    rw [Nat.toDigits_eq_if (by decide)] at front
    split at front
    · rename_i small
      have single : ∀ n < 10, [Nat.digitChar n].head? = some '0' → n = 0 := by decide
      exact single n small front
    · rename_i large
      rw [List.head?_append_of_ne_nil _ Nat.toDigits_ne_nil] at front
      have nothing := ih (n / 10) (by omega) front
      omega

theorem digits_decimal (n : Nat) : digits (Nat.toDigits 10 n) = (decimal n, []) := by
  have all (text : List Char) (each : ∀ c ∈ text, c.isDigit = true) :
      digits text = (text.map fun c => c.toNat - '0'.toNat, []) := by
    induction text with
    | nil => rfl
    | cons c text ih =>
      obtain ⟨digit, others⟩ := List.forall_mem_cons.mp each
      rw [digits_digit digit, ih others, List.map_cons]
  exact all _ fun c => isDigit_decimal

theorem ofDigits_decimal (n : Nat) : ofDigits (decimal n) = n := by
  have folded : Nat.ofDigitChars 10 (Nat.toDigits 10 n) 0 = n := Nat.ofDigitChars_ten_toDigits
  rw [Nat.ofDigitChars_eq_foldl] at folded
  rw [ofDigits, decimal, List.foldl_map, folded]

theorem integerOf_decimal (n : Nat) : integerOf (Nat.toDigits 10 n) = (decimal n, []) := by
  by_cases zero : n = 0
  · subst zero
    rfl
  · rw [← digits_decimal]
    unfold integerOf
    split
    · rename_i rest front
      exact absurd (zero_of_head (by rw [front]; rfl)) zero
    · rfl

theorem unsigned_decimal (negative : Bool) (n : Nat) :
    unsigned? negative (Nat.toDigits 10 n) = some (⟨negative, decimal n, none, none⟩, []) := by
  have full : ¬ (decimal n).isEmpty = true := by simp [decimal, Nat.toDigits_ne_nil]
  rw [unsigned?, integerOf_decimal, if_neg full]
  rfl

theorem read_decimal (n : Nat) :
    read? (Nat.toDigits 10 n) = some (⟨false, decimal n, none, none⟩, []) := by
  rw [← unsigned_decimal]
  cases text : Nat.toDigits 10 n with
  | nil => exact absurd text Nat.toDigits_ne_nil
  | cons c rest =>
    have front : c ∈ Nat.toDigits 10 n := by
      rw [text]
      exact List.mem_cons_self
    apply read_plain
    intro minus
    rw [minus] at front
    exact absurd (isDigit_decimal front) (by decide)

end Numeral

namespace Number

-- A number whose text is a numeral for this very number. Not every float is one, since the value of a
-- numeral is rounded more than once.
def Faithful (number : Number) : Prop :=
  ∃ n, Numeral.read? number.toText.toList = some (n, []) ∧ n.toNumber? = some number

theorem faithful_int (fits : inRange value = true) : Faithful (.int value) := by
  cases value with
  | ofNat n =>
    have shown : (Number.int (Int.ofNat n)).toText.toList = Nat.toDigits 10 n := by
      have plain : (Number.int (Int.ofNat n)).toText = toString n := rfl
      rw [plain, Nat.toString_eq_repr, Nat.toList_repr]
    refine ⟨⟨false, Numeral.decimal n, none, none⟩, ?_, ?_⟩
    · rw [shown, Numeral.read_decimal]
    · simp only [Numeral.toNumber?, Numeral.ofDigits_decimal]
      simpa using fits
  | negSucc n =>
    have shown : (Number.int (Int.negSucc n)).toText.toList = '-' :: Nat.toDigits 10 (n + 1) := by
      have signed : (Number.int (Int.negSucc n)).toText = "-" ++ toString (n + 1) := rfl
      rw [signed, String.toList_append, Nat.toString_eq_repr, Nat.toList_repr]
      rfl
    refine ⟨⟨true, Numeral.decimal (n + 1), none, none⟩, ?_, ?_⟩
    · rw [shown, Numeral.read_minus, Numeral.unsigned_decimal]
    · simp only [Numeral.toNumber?, Numeral.ofDigits_decimal]
      rw [Int.negSucc_eq] at fits ⊢
      simpa using fits

end Number
end Mustache
