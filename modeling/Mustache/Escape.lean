namespace Mustache

inductive Escape where
  | html
  | verbatim
deriving DecidableEq, Repr

namespace Escape

def marks : List Char := ['&', '<', '>', '"', '\'']

def entity (c : Char) : List Char :=
  match c with
  | '&' => "&amp;".toList
  | '<' => "&lt;".toList
  | '>' => "&gt;".toList
  | '"' => "&quot;".toList
  | '\'' => "&#39;".toList
  | _ => [c]

-- What stands before the first of them is taken over as it is, and a text without any of them is
-- not written anew.
def escapeHtml (text : String) : String :=
  match text.toList.dropWhile (· ∉ marks) with
  | [] => text
  | marked => String.ofList (text.toList.takeWhile (· ∉ marks) ++ marked.flatMap entity)

theorem entity_of_notMem (other : c ∉ marks) : entity c = [c] := by
  unfold entity
  split <;> first | rfl | exact absurd (by decide) other

theorem flatMap_entity_of_free {text : List Char} (free : ∀ c ∈ text, c ∉ marks) :
    text.flatMap entity = text := by
  induction text with
  | nil => rfl
  | cons c text ih =>
    obtain ⟨here, later⟩ := List.forall_mem_cons.mp free
    rw [List.flatMap_cons, entity_of_notMem here, ih later]
    rfl

theorem toList_escapeHtml (text : String) : (escapeHtml text).toList = text.toList.flatMap entity := by
  have clean : (text.toList.takeWhile (· ∉ marks)).flatMap entity = text.toList.takeWhile (· ∉ marks) := by
    apply flatMap_entity_of_free
    intro c member
    simpa using List.all_eq_true.mp List.all_takeWhile c member
  have whole := List.takeWhile_append_dropWhile (p := (· ∉ marks)) (l := text.toList)
  unfold escapeHtml
  split
  · rename_i none
    rw [none, List.append_nil] at whole
    rw [whole] at clean
    exact clean.symm
  · have parts := congrArg (List.flatMap entity) whole
    rw [List.flatMap_append, clean] at parts
    rw [String.toList_ofList]
    exact parts

def apply : Escape → String → String
  | .html, text => escapeHtml text
  | .verbatim, text => text

def name : Escape → String
  | .html => "html"
  | .verbatim => "none"

def ofName? (name : String) : Option Escape :=
  if name = "html" then some .html else if name = "none" then some .verbatim else none

end Escape
end Mustache
