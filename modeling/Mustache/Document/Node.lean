import Mustache.Delimiters

namespace Mustache

-- What a template consists of. A block is a section or, when inverted, the counterpart that shows
-- its children where the section would show nothing. It keeps the source between its two tags and
-- the pair that was active there.
inductive Node where
  | text (text : String)
  | interpolation (key : String) (escaped : Bool)
  | block (inverted : Bool) (key : String) (children : List Node) (rawText : String)
      (delimiters : Delimiters)
  | reference (key indent : String)

namespace Node

mutual
def same : Node → Node → Bool
  | .text a, .text b => a = b
  | .interpolation a escaped, .interpolation b escaped' => a = b && escaped = escaped'
  | .block inverted a children raw pair, .block inverted' b children' raw' pair' =>
    inverted = inverted' && a = b && raw = raw' && pair = pair' && sameAll children children'
  | .reference a indent, .reference b indent' => a = b && indent = indent'
  | _, _ => false
def sameAll : List Node → List Node → Bool
  | [], [] => true
  | a :: as, b :: bs => same a b && sameAll as bs
  | _, _ => false
end

mutual
theorem same_iff (a b : Node) : same a b = true ↔ a = b := by
  cases a <;> cases b
  case block.block inverted a children raw pair inverted' b children' raw' pair' =>
    simp only [same, Bool.and_eq_true, decide_eq_true_eq, sameAll_iff children children',
      block.injEq]
    constructor
    · rintro ⟨⟨⟨⟨rfl, rfl⟩, rfl⟩, rfl⟩, rfl⟩; simp
    · rintro ⟨rfl, rfl, rfl, rfl, rfl⟩; simp
  all_goals simp [same]
theorem sameAll_iff (as bs : List Node) : sameAll as bs = true ↔ as = bs := by
  cases as with
  | nil => cases bs <;> simp [sameAll]
  | cons a as =>
    cases bs with
    | nil => simp [sameAll]
    | cons b bs => simp [sameAll, same_iff a b, sameAll_iff as bs]
end

instance : DecidableEq Node := fun a b => decidable_of_iff _ (same_iff a b)

end Node
end Mustache
