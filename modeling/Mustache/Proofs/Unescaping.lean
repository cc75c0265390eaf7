import Mathlib.Logic.ExistsUnique
import Mustache.Proofs.Escaping

namespace Mustache
open Text

namespace Escape
variable {text rest : List Char}

theorem entity_prefix_free (one : c ∈ marks) (two : d ∈ marks) (front : entity c <+: entity d) :
    c = d := by
  have all : ∀ c ∈ marks, ∀ d ∈ marks, entity c <+: entity d → c = d := by simp [marks, entity]
  exact all c one d two front

theorem entity_unique (one : c ∈ marks) (two : d ∈ marks) (left : entity c <+: text)
    (right : entity d <+: text) : c = d := by
  rcases List.prefix_or_prefix_of_prefix left right with front | front
  · exact entity_prefix_free one two front
  · exact (entity_prefix_free two one front).symm

def entityAt? (text : List Char) : Option (Char × List Char) :=
  marks.findSome? fun mark => (strip? (entity mark) text).map (mark, ·)

theorem entityAt_sound (found : entityAt? text = some (mark, rest)) :
    mark ∈ marks ∧ text = entity mark ++ rest := by
  obtain ⟨own, member, stripped⟩ := List.exists_of_findSome?_eq_some found
  obtain ⟨after, strips, same⟩ := Option.map_eq_some_iff.mp stripped
  cases same
  exact ⟨member, strip_eq_some_iff.mp strips⟩

theorem entityAt_append (member : mark ∈ marks) (rest : List Char) :
    entityAt? (entity mark ++ rest) = some (mark, rest) := by
  cases found : entityAt? (entity mark ++ rest) with
  | none =>
    have missed := List.findSome?_eq_none_iff.mp found mark member
    rw [strip_append] at missed
    cases missed
  | some answer =>
    obtain ⟨own, after⟩ := answer
    obtain ⟨known, parts⟩ := entityAt_sound found
    have same : own = mark :=
      entity_unique known member ⟨after, parts.symm⟩ (List.prefix_append _ rest)
    subst same
    rw [List.append_cancel_left parts]

theorem entity_cons (member : mark ∈ marks) : ∃ name, entity mark = '&' :: name := by
  obtain ⟨name, -, shape, -⟩ := Escaped.entity_of_mem member
  exact ⟨name.toList, shape⟩

theorem entityAt_of_other (other : c ≠ '&') (rest : List Char) : entityAt? (c :: rest) = none := by
  cases found : entityAt? (c :: rest) with
  | none => rfl
  | some answer =>
    obtain ⟨known, parts⟩ := entityAt_sound found
    obtain ⟨name, shape⟩ := entity_cons known
    rw [shape] at parts
    cases parts
    exact absurd rfl other

theorem entityAt_shorter (found : entityAt? text = some (mark, rest)) : rest.length < text.length := by
  obtain ⟨known, parts⟩ := entityAt_sound found
  obtain ⟨name, shape⟩ := entity_cons known
  rw [parts, shape]
  simp only [List.cons_append, List.length_cons, List.length_append]
  omega

-- From left to right each entity is replaced by its character, and all else stays.
def unescape (text : List Char) : List Char :=
  match _ : entityAt? text with
  | some (mark, rest) => mark :: unescape rest
  | none =>
    match text with
    | [] => []
    | c :: rest => c :: unescape rest
termination_by text.length
decreasing_by
  · exact entityAt_shorter ‹_›
  · exact Nat.lt_succ_self _

def unescapeHtml (text : String) : String := String.ofList (unescape text.toList)

theorem unescape_entity (member : mark ∈ marks) (rest : List Char) :
    unescape (entity mark ++ rest) = mark :: unescape rest := by
  have found := entityAt_append member rest
  rw [unescape]
  split
  · rename_i own after answered
    rw [found] at answered
    cases answered
    rfl
  · rename_i missed
    rw [found] at missed
    cases missed

theorem unescape_cons (other : c ≠ '&') (rest : List Char) :
    unescape (c :: rest) = c :: unescape rest := by
  have missed := entityAt_of_other other rest
  rw [unescape]
  split
  · rename_i found
    rw [missed] at found
    cases found
  · rfl

theorem unescape_flatMap (text : List Char) : unescape (text.flatMap entity) = text := by
  induction text with
  | nil =>
    rw [List.flatMap_nil, unescape]
    rfl
  | cons c text ih =>
    rw [List.flatMap_cons]
    by_cases mark : c ∈ marks
    · rw [unescape_entity mark, ih]
    · have other : c ≠ '&' := by
        rintro rfl
        exact mark (by decide)
      rw [entity_of_notMem mark, List.singleton_append, unescape_cons other, ih]

theorem one_entity (escaped : Escaped text) (split : text = before ++ '&' :: after) :
    ∃! mark, mark ∈ marks ∧ entity mark <+: '&' :: after := by
  have named : ∀ name ∈ Escaped.names, ∃ mark ∈ marks, entity mark = '&' :: name.toList := by
    simp [Escaped.names, marks, entity]
  obtain ⟨name, known, front⟩ := escaped.safe.2 before after split
  obtain ⟨mark, member, shape⟩ := named name known
  refine ⟨mark, ⟨member, ?_⟩, ?_⟩
  · rw [shape]
    exact List.cons_prefix_cons.mpr ⟨rfl, front⟩
  · intro other found
    apply entity_unique found.1 member found.2
    rw [shape]
    exact List.cons_prefix_cons.mpr ⟨rfl, front⟩

theorem escaped_escapeHtml (text : String) : Escaped (escapeHtml text).toList := by
  rw [toList_escapeHtml]
  exact .flatMap text.toList

theorem escapeHtml_append (a b : String) : escapeHtml (a ++ b) = escapeHtml a ++ escapeHtml b := by
  apply String.toList_inj.mp
  simp only [toList_escapeHtml, String.toList_append, List.flatMap_append]

theorem unescapeHtml_escapeHtml (text : String) : unescapeHtml (escapeHtml text) = text := by
  rw [unescapeHtml, toList_escapeHtml, unescape_flatMap, String.ofList_toList]

-- Escaping goes character by character, leaves nothing with a meaning in HTML but the ampersands of
-- entities, and can be undone, so that no two texts are escaped alike.
theorem escapeHtml_lossless (a b : String) :
    (escapeHtml a).toList = a.toList.flatMap entity ∧
    escapeHtml (a ++ b) = escapeHtml a ++ escapeHtml b ∧
    (∀ c ∈ (escapeHtml a).toList, c ≠ '<' ∧ c ≠ '>' ∧ c ≠ '"' ∧ c ≠ '\'') ∧
    (∀ before after, (escapeHtml a).toList = before ++ '&' :: after →
      ∃! mark, mark ∈ marks ∧ entity mark <+: '&' :: after) ∧
    unescapeHtml (escapeHtml a) = a ∧ (a ≠ b → escapeHtml a ≠ escapeHtml b) := by
  have escaped := escaped_escapeHtml a
  refine ⟨toList_escapeHtml a, escapeHtml_append a b, ?_, ?_, unescapeHtml_escapeHtml a, ?_⟩
  · intro c member
    have only (mark : c ∈ marks) : c = '&' := escaped.safe.1 c member mark
    refine ⟨?_, ?_, ?_, ?_⟩
    all_goals
      rintro rfl
      exact absurd (only (by decide)) (by decide)
  · intro before after split
    exact one_entity escaped split
  · intro apart same
    have undone := congrArg unescapeHtml same
    rw [unescapeHtml_escapeHtml, unescapeHtml_escapeHtml] at undone
    exact apart undone

theorem escapeHtml_lossless_entity : escapeHtml "&lt;" = "&amp;lt;" ∧
    (∃! mark, mark ∈ marks ∧ entity mark <+: "&amp;lt;".toList) ∧
    unescapeHtml "&amp;lt;" = "&lt;" ∧ escapeHtml "&lt;" ≠ escapeHtml "<" := by
  have escaped : escapeHtml "&lt;" = "&amp;lt;" := by decide
  obtain ⟨-, -, -, starts, undone, apart⟩ := escapeHtml_lossless "&lt;" "<"
  rw [escaped] at starts undone
  exact ⟨escaped, starts [] "amp;lt;".toList rfl, undone, apart (by decide)⟩

end Escape
end Mustache
