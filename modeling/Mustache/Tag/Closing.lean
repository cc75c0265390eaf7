import Mustache.Text.Search

namespace Mustache
open Text

structure Closing where
  body : List Char
  rest : List Char
deriving DecidableEq, Repr

namespace Closing

-- Of the braces that a run has over the two of the standard closer, each one belongs to the body,
-- so that `{{{key}}}` is one tag.
def braces? (text : List Char) : Option Closing :=
  match text with
  | '}' :: '}' :: rest => some ⟨rest.takeWhile (· = '}'), rest.dropWhile (· = '}')⟩
  | _ => none

def plain? (delimiter text : List Char) : Option Closing := (strip? delimiter text).map (⟨[], ·⟩)

def here? (delimiter text : List Char) : Option Closing :=
  if delimiter = ['}', '}'] then braces? text else plain? delimiter text

def find? (delimiter text : List Char) : Option Closing :=
  match first (here? delimiter) text with
  | none => none
  | some (passed, c) => some { c with body := passed ++ c.body }

theorem takeWhile_brace (text : List Char) :
    ∃ n, text.takeWhile (· = '}') = List.replicate n '}' := by
  induction text with
  | nil => exact ⟨0, rfl⟩
  | cons c text ih =>
    by_cases brace : c = '}'
    · obtain ⟨n, same⟩ := ih
      exact ⟨n + 1, by simp [brace, same, List.replicate_succ]⟩
    · exact ⟨0, by simp [brace]⟩

theorem braces_append (found : braces? text = some c) :
    text = c.body ++ ['}', '}'] ++ c.rest := by
  unfold braces? at found
  split at found
  · rename_i after
    cases Option.some.inj found
    have whole := List.takeWhile_append_dropWhile (p := (· = '}')) (l := after)
    obtain ⟨n, run⟩ := takeWhile_brace after
    rw [run] at whole
    simp only [run]
    have moved : ['}', '}'] ++ List.replicate n '}' = List.replicate n '}' ++ ['}', '}'] := by
      rw [show (['}', '}'] : List Char) = List.replicate 2 '}' from rfl,
        List.replicate_append_replicate, List.replicate_append_replicate, Nat.add_comm]
    rw [← moved, List.append_assoc, whole]
    rfl
  · cases found

theorem here_append (found : here? delimiter text = some c) :
    text = c.body ++ delimiter ++ c.rest := by
  unfold here? at found
  split at found
  · rename_i standard
    rw [standard]
    exact braces_append found
  · simp only [plain?, Option.map_eq_some_iff] at found
    obtain ⟨after, stripped, rfl⟩ := found
    exact strip_eq_some_iff.mp stripped

theorem find_append (found : find? delimiter text = some c) :
    text = c.body ++ delimiter ++ c.rest := by
  unfold find? at found
  split at found
  · cases found
  · rename_i searched
    cases Option.some.inj found
    obtain ⟨⟨_, rfl, hit⟩, _⟩ := first_eq_some searched
    rw [here_append hit]
    simp

end Closing
end Mustache
