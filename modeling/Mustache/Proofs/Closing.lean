import Mustache.Proofs.Occurrence
import Mustache.Tag.Closing

namespace Mustache
open Text

namespace Closing

-- Where a tag ends. Of the first run of two or more braces the last two are the standard close
-- delimiter; any other is taken where it stands first.
inductive Ends : (delimiter text inside after : List Char) → Prop where
  | braces (first : First ['}', '}'] text lead)
      (parts : text = lead ++ List.replicate (n + 2) '}' ++ after) (stops : after.head? ≠ some '}') :
      Ends ['}', '}'] text (lead ++ List.replicate n '}') after
  | plain (other : delimiter ≠ ['}', '}']) (first : First delimiter text inside)
      (parts : text = inside ++ delimiter ++ after) : Ends delimiter text inside after

theorem replicate_two (n : Nat) (c : α) : List.replicate (n + 2) c = List.replicate n c ++ [c, c] :=
  List.replicate_append_replicate.symm

theorem Ends.append (ends : Ends delimiter text inside after) :
    text = inside ++ delimiter ++ after := by
  cases ends with
  | braces first parts stops => rw [parts, replicate_two]; simp only [List.append_assoc]
  | plain other first parts => exact parts

theorem replicate_parts (same : List.replicate n c ++ a = List.replicate m c ++ b)
    (left : a.head? ≠ some c) (right : b.head? ≠ some c) : n = m ∧ a = b := by
  induction n generalizing m with
  | zero =>
    cases m with
    | zero => exact ⟨rfl, same⟩
    | succ m =>
      rw [List.replicate_zero, List.nil_append, List.replicate_succ, List.cons_append] at same
      rw [same] at left
      exact absurd rfl left
  | succ n ih =>
    cases m with
    | zero =>
      rw [List.replicate_zero, List.nil_append, List.replicate_succ, List.cons_append] at same
      rw [← same] at right
      exact absurd rfl right
    | succ m =>
      simp only [List.replicate_succ, List.cons_append, List.cons.injEq, true_and] at same
      obtain ⟨rfl, rfl⟩ := ih same
      exact ⟨rfl, rfl⟩

theorem Ends.unique (one : Ends delimiter text a x) (two : Ends delimiter text b y) :
    a = b ∧ x = y := by
  cases one with
  | braces first parts stops =>
    cases two with
    | braces first' parts' stops' =>
      obtain rfl := first.unique first'
      rw [parts, List.append_assoc, List.append_assoc] at parts'
      obtain ⟨lengths, rfl⟩ := replicate_parts (List.append_cancel_left parts') stops stops'
      obtain rfl : _ = _ := Nat.add_right_cancel lengths
      exact ⟨rfl, rfl⟩
    | plain other => exact absurd rfl other
  | plain other first parts =>
    cases two with
    | braces => exact absurd rfl other
    | plain other' first' parts' =>
      obtain rfl := first.unique first'
      rw [parts] at parts'
      exact ⟨rfl, List.append_cancel_left parts'⟩

theorem braces_eq_replicate (found : braces? text = some c) : ∃ n, c.body = List.replicate n '}' ∧
    text = List.replicate (n + 2) '}' ++ c.rest ∧ c.rest.head? ≠ some '}' := by
  have whole := braces_append found
  unfold braces? at found
  split at found
  · rename_i after
    cases Option.some.inj found
    obtain ⟨n, run⟩ := takeWhile_brace after
    refine ⟨n, run, ?_, ?_⟩
    · rw [whole, run, replicate_two]
    · intro more
      have kept := head_dropWhile (· = '}') after '}' more
      simp at kept
  · cases found

theorem here_of_delimiter : here? delimiter (delimiter ++ after) ≠ none := by
  unfold here?
  split
  · rename_i standard
    rw [standard]
    simp [braces?]
  · simp [plain?, strip_append]

theorem first_of_search (searched : Text.first (here? delimiter) text = some (passed, c)) :
    First delimiter text passed ∧ ∃ rest, text = passed ++ rest ∧ here? delimiter rest = some c := by
  obtain ⟨⟨rest, parts, hit⟩, earlier⟩ := first_eq_some searched
  refine ⟨⟨?_, ?_⟩, rest, parts, hit⟩
  · have starts : ∃ after, rest = delimiter ++ after := by
      unfold here? at hit
      split at hit
      · rename_i standard
        obtain ⟨n, -, run, -⟩ := braces_eq_replicate hit
        exact ⟨List.replicate n '}' ++ c.rest, by rw [run, standard, List.replicate_succ, List.replicate_succ]; rfl⟩
      · simp only [plain?, Option.map_eq_some_iff] at hit
        obtain ⟨after, stripped, -⟩ := hit
        exact ⟨after, strip_eq_some_iff.mp stripped⟩
    obtain ⟨after, rfl⟩ := starts
    exact ⟨after, by rw [parts, List.append_assoc]⟩
  · rintro u ⟨v, same⟩
    refine Nat.le_of_not_lt fun shorter => ?_
    exact here_of_delimiter (earlier u (delimiter ++ v) (by simp [← same]) shorter)

theorem find_ends (found : find? delimiter text = some c) : Ends delimiter text c.body c.rest := by
  have whole := find_append found
  unfold find? at found
  split at found
  · cases found
  · rename_i passed answer searched
    cases Option.some.inj found
    obtain ⟨first, rest, parts, hit⟩ := first_of_search searched
    unfold here? at hit
    split at hit
    · rename_i standard
      subst standard
      obtain ⟨n, body, run, stops⟩ := braces_eq_replicate hit
      simp only [body]
      exact .braces first (by rw [parts, run, List.append_assoc]) stops
    · rename_i other
      simp only [plain?, Option.map_eq_some_iff] at hit
      obtain ⟨after, -, rfl⟩ := hit
      rw [List.append_nil] at whole ⊢
      exact .plain other first whole

theorem find_eq_none (missed : find? delimiter text = none) : ¬ delimiter <:+: text := by
  rintro ⟨u, v, rfl⟩
  unfold find? at missed
  split at missed
  · rename_i none
    exact here_of_delimiter (first_eq_none.mp none u (delimiter ++ v) (by simp))
  · cases missed

theorem find_of_ends (ends : Ends delimiter text inside after) :
    find? delimiter text = some ⟨inside, after⟩ := by
  cases found : find? delimiter text with
  | none => exact absurd ⟨inside, after, ends.append.symm⟩ (find_eq_none found)
  | some c =>
    obtain ⟨rfl, rfl⟩ := (find_ends found).unique ends
    rfl

end Closing
end Mustache
