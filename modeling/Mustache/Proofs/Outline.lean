import Mustache.Document.Node
import Mustache.Proofs.Words

namespace Mustache
open Text

-- A template as it is meant, without the places at which its parts come to stand.
inductive Outline where
  | text (text : String)
  | interpolation (key : String) (escaped : Bool)
  | reference (key : String)
  | block (inverted : Bool) (key : String) (children : List Outline)

namespace Delimiters

def wrap (pair : Delimiters) (body : List Char) : List Char :=
  pair.opening.toList ++ body ++ pair.closing.toList

-- A pair under which every printed tag is read back with its own body.
structure Prints (pair : Delimiters) : Prop where
  words : pair.Words
  usable : pair.isUsable = true
  sigils : ∀ c ∈ pair.closing.toList.head?, c ∉ ['#', '^', '>', '/', '&']
  braces : pair.closing = "\x7d\x7d" → pair.opening.toList.head? ≠ some '}'

end Delimiters

namespace Outline

def isText : Outline → Bool
  | .text _ => true
  | _ => false

def sigil (inverted : Bool) : Char := if inverted then '^' else '#'

def variableBody (key : String) (escaped : Bool) : List Char :=
  if escaped then key.toList else '&' :: key.toList

mutual
def print (pair : Delimiters) : Outline → List Char
  | .text run => run.toList
  | .interpolation key escaped => pair.wrap (variableBody key escaped)
  | .reference key => pair.wrap ('>' :: key.toList)
  | .block inverted key children => pair.wrap (sigil inverted :: key.toList) ++
      printAll pair children ++ pair.wrap ('/' :: key.toList)
def printAll (pair : Delimiters) : List Outline → List Char
  | [] => []
  | outline :: rest => outline.print pair ++ printAll pair rest
end

mutual
def node (pair : Delimiters) : Outline → Node
  | .text run => .text run
  | .interpolation key escaped => .interpolation key escaped
  | .reference key => .reference key ""
  | .block inverted key children => .block inverted key (nodes pair children)
      (String.ofList (printAll pair children)) pair
def nodes (pair : Delimiters) : List Outline → List Node
  | [] => []
  | outline :: rest => outline.node pair :: nodes pair rest
end

mutual
def items (pair : Delimiters) (offset : Nat) : Outline → List Item
  | .text run => [.ok (.text run)]
  | .interpolation key escaped => [.ok (.interpolation key escaped)]
  | .reference key => [.ok (.reference key "")]
  | .block inverted key children =>
    let content := offset + size (pair.wrap (sigil inverted :: key.toList))
    .ok (.sectionStart inverted key content pair) ::
      (itemsAll pair content children ++
        [.ok (.blockEnd key (content + size (printAll pair children)))])
def itemsAll (pair : Delimiters) (offset : Nat) : List Outline → List Item
  | [] => []
  | outline :: rest =>
    outline.items pair offset ++ itemsAll pair (offset + size (outline.print pair)) rest
end

end Outline

-- A text that stays one text between two tags: something of it shows, and it neither breaks the
-- line nor looks like the edge of a tag.
structure IsRun (pair : Delimiters) (text : List Char) : Prop where
  visible : ∃ c ∈ text, isBlank c = false
  line : '\n' ∉ text
  opening : ∀ c ∈ pair.opening.toList.head?, c ∉ text
  braces : pair.closing = "\x7d\x7d" → text.head? ≠ some '}'

structure IsKey (pair : Delimiters) (key : String) : Prop where
  trimmed : trim key.toList = key.toList
  closing : ∀ c ∈ pair.closing.toList.head?, c ∉ key.toList

def IsPlain (key : String) : Prop :=
  ∀ c ∈ key.toList.head?, c ∉ ['!', '#', '^', '<', '>', '/', '=', '&']

namespace Outline

mutual
def Legible (pair : Delimiters) : Outline → Prop
  | .text run => IsRun pair run.toList
  | .interpolation key escaped => IsKey pair key ∧ (escaped = true → IsPlain key)
  | .reference key => IsKey pair key
  | .block _ key children => IsKey pair key ∧ LegibleAll pair children
def LegibleAll (pair : Delimiters) : List Outline → Prop
  | [] => True
  | outline :: rest => outline.Legible pair ∧
      (outline.isText = true → ∀ next ∈ rest.head?, next.isText = false) ∧ LegibleAll pair rest
end

end Outline

namespace IsKey
variable {pair : Delimiters} {name : String}

theorem keyOf (key : IsKey pair name) : Tag.keyOf name.toList = name := by
  rw [Tag.keyOf, key.trimmed, String.ofList_toList]

theorem absent_behind (key : IsKey pair name) (prints : pair.Prints)
    (sigil : mark ∈ ['#', '^', '>', '/', '&']) :
    ∀ c ∈ pair.closing.toList.head?, c ∉ mark :: name.toList := by
  intro c first member
  rcases List.mem_cons.mp member with rfl | member
  · exact prints.sigils c first sigil
  · exact key.closing c first member

theorem absent_variableBody (key : IsKey pair name) (prints : pair.Prints) (escaped : Bool) :
    ∀ c ∈ pair.closing.toList.head?, c ∉ Outline.variableBody name escaped := by
  cases escaped with
  | true => exact key.closing
  | false => exact key.absent_behind prints (by simp)

end IsKey

namespace Tag
variable {pair : Delimiters} {name : String}

theorem braced_eq_none (absent : '}' ∉ body) : braced? body = none := by
  unfold braced?
  split
  · rename_i rest
    split
    · rename_i inner reversed
      have member : '}' ∈ rest.reverse := by rw [reversed]; exact List.mem_cons_self
      exact absurd (List.mem_cons_of_mem _ (List.mem_reverse.mp member)) absent
    · rfl
  · rfl

theorem ofBody_plain (apart : c ∉ ['!', '#', '^', '<', '>', '/', '=', '&'])
    (unbraced : (if Delimiters.isStandard pair then braced? (c :: rest) else none) = none) :
    ofBody pair span indent (c :: rest) = some (.interpolation (keyOf (c :: rest)) true) := by
  simp only [List.mem_cons, List.not_mem_nil, or_false, not_or] at apart
  obtain ⟨mark, number, caret, less, greater, slash, equals, ampersand⟩ := apart
  simp only [ofBody, unbraced]

theorem ofBody_variableBody (key : IsKey pair name) (plain : escaped = true → IsPlain name) :
    ofBody pair span indent (Outline.variableBody name escaped) = some (.interpolation name escaped) := by
  cases escaped with
  | false => simp [Outline.variableBody, ofBody, key.keyOf]
  | true =>
    have named := key.keyOf
    have sigils := plain rfl
    unfold IsPlain at sigils
    simp only [Outline.variableBody, if_true]
    cases shape : name.toList with
    | nil =>
      have empty : name = "" := String.toList_inj.mp (shape.trans String.toList_empty.symm)
      rw [empty]
      rfl
    | cons c rest =>
      have unbraced : (if pair.isStandard then braced? (c :: rest) else none) = none := by
        split
        · rename_i standard
          have closing : pair.closing.toList.head? = some '}' := by
            rw [Delimiters.isStandard, decide_eq_true_eq] at standard
            rw [standard]
            rfl
          exact braced_eq_none (shape ▸ key.closing '}' closing)
        · rfl
      rw [shape] at named sigils
      rw [ofBody_plain (sigils c rfl) unbraced, named]

theorem ofBody_sigil (key : IsKey pair name) (inverted : Bool) :
    ofBody pair span indent (Outline.sigil inverted :: name.toList) =
      some (.sectionStart inverted name span.stop pair) := by
  cases inverted <;> simp [Outline.sigil, ofBody, key.keyOf]

theorem ofBody_arrow (key : IsKey pair name) :
    ofBody pair span indent ('>' :: name.toList) =
      some (.reference name (String.ofList indent)) := by
  simp [ofBody, key.keyOf]

theorem ofBody_slash (key : IsKey pair name) :
    ofBody pair span indent ('/' :: name.toList) = some (.blockEnd name span.start) := by
  simp [ofBody, key.keyOf]

end Tag
end Mustache
