import Mustache.Text.Bytes
import Mustache.Text.Search

namespace Mustache.Text

-- `word` stands in `text` behind `lead`, and nowhere earlier.
structure First (word text lead : List Char) : Prop where
  here : lead ++ word <+: text
  earliest : ∀ u, u ++ word <+: text → lead.length ≤ u.length

theorem First.unique (one : First word text a) (two : First word text b) : a = b := by
  have lengths : a.length = b.length :=
    Nat.le_antisymm (one.earliest b two.here) (two.earliest a one.here)
  have left := List.prefix_of_prefix_length_le ((List.prefix_append a word).trans one.here)
    ((List.prefix_append b word).trans two.here) (Nat.le_of_eq lengths)
  exact left.eq_of_length lengths

theorem behind_of_head_notMem (absent : c ∉ lead) (stands : u ++ c :: word <+: lead ++ text) :
    ∃ more, u = lead ++ more ∧ more ++ c :: word <+: text := by
  obtain ⟨v, same⟩ := stands
  rw [List.append_assoc] at same
  rcases List.append_eq_append_iff.mp same with ⟨tail, rfl, parts⟩ | ⟨tail, rfl, rfl⟩
  · cases tail with
    | nil => exact ⟨[], by simp, ⟨v, by simpa using parts⟩⟩
    | cons d tail =>
      rw [List.cons_append, List.cons_append, List.cons.injEq] at parts
      exact absurd (by simp [parts.1]) absent
  · exact ⟨tail, rfl, ⟨v, by simp⟩⟩

theorem First.of_head_notMem (absent : c ∉ lead) :
    First (c :: word) (lead ++ c :: word ++ rest) lead := by
  refine ⟨List.prefix_append _ _, ?_⟩
  intro u stands
  rw [List.append_assoc] at stands
  obtain ⟨more, rfl, -⟩ := behind_of_head_notMem absent stands
  simp

theorem First.behind (first : First (c :: word) text a) (absent : c ∉ lead) :
    First (c :: word) (lead ++ text) (lead ++ a) := by
  refine ⟨?_, ?_⟩
  · rw [List.append_assoc]
    exact (List.prefix_append_right_inj lead).mpr first.here
  · intro u stands
    obtain ⟨more, rfl, later⟩ := behind_of_head_notMem absent stands
    have bound := first.earliest more later
    simp only [List.length_append]
    omega

theorem infix_behind (stands : c :: word <:+: lead ++ text) (absent : c ∉ lead) :
    c :: word <:+: text := by
  obtain ⟨u, v, same⟩ := stands
  obtain ⟨more, -, after, parts⟩ := behind_of_head_notMem absent ⟨v, same⟩
  exact ⟨more, after, parts⟩

theorem parts_of_size (same : a ++ x = b ++ y) (sizes : size a = size b) : a = b ∧ x = y := by
  have one : cut? (size a) (a ++ x) = some (a, x) := cut_eq_some_iff.mpr ⟨rfl, rfl⟩
  have two : cut? (size a) (a ++ x) = some (b, y) := cut_eq_some_iff.mpr ⟨same, sizes.symm⟩
  rw [one] at two
  simpa using two

theorem append_of_size_le (same : a ++ x = b ++ y) (sizes : size a ≤ size b) :
    ∃ between, b = a ++ between ∧ x = between ++ y := by
  rcases List.append_eq_append_iff.mp same with ⟨between, rfl, rfl⟩ | ⟨between, rfl, rfl⟩
  · exact ⟨between, rfl, rfl⟩
  · have empty : between = [] := by
      have bound := length_le_size between
      simp only [size_append] at sizes
      exact List.eq_nil_of_length_eq_zero (by omega)
    subst empty
    exact ⟨[], by simp, by simp⟩

end Mustache.Text
