import Mustache.Proofs.Line
import Mustache.Proofs.Occurrence
import Mustache.Tag.Opening

namespace Mustache
open Text

namespace Opening

theorem indented_of_blanks (blank : ∀ c ∈ blanks, isBlank c = true) :
    indented? delimiter (blanks ++ delimiter ++ after) ≠ none := by
  induction blanks with
  | nil =>
    have stripped : (strip? delimiter (delimiter ++ after)).map (fun rest => (([] : List Char), rest)) ≠ none := by
      simp [strip_append]
    rw [List.nil_append]
    cases shape : delimiter ++ after with
    | nil => rw [shape] at stripped; exact stripped
    | cons c text =>
      rw [shape] at stripped
      unfold indented?
      split
      · simp
      · exact stripped
  | cons b blanks ih =>
    have inner := ih fun c member => blank c (List.mem_cons_of_mem _ member)
    obtain ⟨found, answered⟩ := Option.ne_none_iff_exists'.mp inner
    simp only [List.cons_append, indented?, blank b List.mem_cons_self, answered]
    simp

theorem here_of_inLine (found : indented? delimiter text ≠ none) : here? delimiter text ≠ none := by
  obtain ⟨answer, answered⟩ := Option.ne_none_iff_exists'.mp found
  unfold here?
  split
  · simp
  · simp [inLine?, answered]

theorem here_of_break (isBreak : IsBreak newline) (found : indented? delimiter text ≠ none) :
    here? delimiter (newline ++ text) ≠ none := by
  obtain ⟨answer, answered⟩ := Option.ne_none_iff_exists'.mp found
  have broke : lineBreak? (newline ++ text) = some (newline, text) :=
    lineBreak_eq_some_iff.mpr ⟨isBreak, rfl⟩
  simp [here?, afterBreak?, broke, answered]

theorem here_of_delimiter : here? delimiter (delimiter ++ after) ≠ none := by
  have plain : ∀ c ∈ ([] : List Char), isBlank c = true := by simp
  exact here_of_inLine (indented_of_blanks plain)

-- What an opening tells about the text before its delimiter. Where it names no line start, the line
-- goes on before the blanks.
structure Fits (delimiter : List Char) (sourceStart : Bool) (text : List Char) (o : Opening) :
    Prop where
  whole : text = o.lead ++ delimiter ++ o.rest
  indented : ∀ c ∈ o.indent, isBlank c = true
  begins : ∀ newline, o.lineStart = some newline →
    IsBreak newline ∨ newline = [] ∧ o.before = [] ∧ sourceStart = true
  goesOn : o.lineStart = none → Bare o.before ∧ o.before.getLast? ≠ some '\n' ∧
    (sourceStart = true → o.before ≠ [])
  earliest : ∀ u, u ++ delimiter <+: text → o.before.length ≤ u.length

theorem here_lineStart (found : here? delimiter text = some o) :
    (∀ c ∈ o.indent, isBlank c = true) ∧ ∀ newline, o.lineStart = some newline → IsBreak newline := by
  unfold here? at found
  split at found
  · rename_i answer broken
    cases Option.some.inj found
    unfold afterBreak? at broken
    split at broken
    · cases broken
    · rename_i broke
      split at broken
      · cases broken
      · rename_i inner
        cases Option.some.inj broken
        refine ⟨indented_blank inner, ?_⟩
        rintro _ ⟨⟩
        exact (lineBreak_eq_some_iff.mp broke).1
  · unfold inLine? at found
    split at found
    · cases found
    · rename_i plain
      cases Option.some.inj found
      exact ⟨indented_blank plain, by simp⟩

theorem atStart_fits (found : atStart? delimiter text = some o) : Fits delimiter true text o := by
  unfold atStart? at found
  split at found
  · cases found
  · rename_i plain
    cases Option.some.inj found
    refine ⟨by rw [indented_append plain]; simp [lead, lineBreak], indented_blank plain, ?_, by simp, by simp⟩
    rintro _ ⟨⟩
    exact Or.inr ⟨rfl, rfl, rfl⟩

theorem goesOn_of_missed (blank : ∀ c ∈ blanks, isBlank c = true)
    (missed : ∀ u v, passed ++ (blanks ++ delimiter ++ after) = u ++ v → u.length < passed.length →
      here? delimiter v = none) : Bare passed ∧ passed.getLast? ≠ some '\n' := by
  have reach : ∀ c, passed.getLast? = some c →
      here? delimiter (c :: (blanks ++ delimiter ++ after)) = none := by
    intro c last
    obtain ⟨u, rfl⟩ := List.getLast?_eq_some_iff.mp last
    exact missed u (c :: (blanks ++ delimiter ++ after)) (by simp) (by simp)
  constructor
  · intro c last
    cases kind : isBlank c with
    | false => rfl
    | true =>
      have all : ∀ d ∈ c :: blanks, isBlank d = true := by simpa [kind] using blank
      exact absurd (reach c last) (here_of_inLine (indented_of_blanks all))
  · intro last
    exact here_of_break (Or.inl rfl) (indented_of_blanks blank) (reach '\n' last)

theorem atStart_of_blanks (blank : ∀ c ∈ blanks, isBlank c = true) :
    atStart? delimiter (blanks ++ delimiter ++ after) ≠ none := by
  have indented : indented? delimiter (blanks ++ delimiter ++ after) ≠ none :=
    indented_of_blanks blank
  obtain ⟨found, answered⟩ := Option.ne_none_iff_exists'.mp indented
  simp only [atStart?, answered]
  simp

theorem search_fits (searched : first (here? delimiter) text = some (passed, o))
    (missed : sourceStart = true → atStart? delimiter text = none)
    (whole : text = { o with before := passed }.lead ++ delimiter ++ o.rest) :
    Fits delimiter sourceStart text { o with before := passed } := by
  obtain ⟨⟨rest, parts, hit⟩, earlier⟩ := first_eq_some searched
  obtain ⟨blank, starts⟩ := here_lineStart hit
  refine ⟨whole, blank, fun newline same => Or.inl (starts newline same), ?_, ?_⟩
  · intro (same : o.lineStart = none)
    have after : rest = o.indent ++ delimiter ++ o.rest := by
      simpa [lineBreak, same] using (here_append hit).2
    rw [after] at parts
    obtain ⟨bare, noBreak⟩ := goesOn_of_missed blank (parts ▸ earlier)
    refine ⟨bare, noBreak, ?_⟩
    rintro start (empty : passed = [])
    rw [empty, List.nil_append] at parts
    exact atStart_of_blanks blank (parts ▸ missed start)
  · rintro u ⟨v, same⟩
    refine Nat.le_of_not_lt fun shorter => ?_
    exact here_of_delimiter (earlier u (delimiter ++ v) (by simp [← same]) shorter)

theorem find_fits (found : find? delimiter sourceStart text = some o) :
    Fits delimiter sourceStart text o := by
  have whole := find_append found
  unfold find? at found
  split at found
  · rename_i answer start
    cases Option.some.inj found
    cases sourceStart with
    | false => cases start
    | true => exact atStart_fits start
  · rename_i missed
    split at found
    · cases found
    · rename_i searched
      cases Option.some.inj found
      exact search_fits searched (fun start => by simpa [start] using missed) whole

theorem find_eq_none (missed : find? delimiter sourceStart text = none) : ¬ delimiter <:+: text := by
  rintro ⟨u, v, rfl⟩
  unfold find? at missed
  split at missed
  · cases missed
  · split at missed
    · rename_i none
      exact here_of_delimiter (first_eq_none.mp none u (delimiter ++ v) (by simp))
    · cases missed

theorem find_of_infix (stands : delimiter <:+: text) :
    ∃ o, find? delimiter sourceStart text = some o := by
  cases found : find? delimiter sourceStart text with
  | none => exact absurd stands (find_eq_none found)
  | some o => exact ⟨o, rfl⟩

namespace Fits

theorem lineBreak_edges (fits : Fits delimiter sourceStart text o) : ∀ c ∈ o.lineBreak, isEdge c = true := by
  cases same : o.lineStart with
  | none => simp [lineBreak, same]
  | some newline =>
    rcases fits.begins newline same with (rfl | rfl) | ⟨rfl, -, -⟩
    · simp [lineBreak, same, isEdge]
    · simp [lineBreak, same, isEdge]
    · simp [lineBreak, same]

theorem first (fits : Fits (c :: delimiter) sourceStart text o) (clear : isEdge c = false) :
    First (c :: delimiter) text o.lead := by
  refine ⟨⟨o.rest, by rw [fits.whole]⟩, ?_⟩
  rintro u ⟨v, same⟩
  refine Nat.le_of_not_lt fun shorter => ?_
  have late := fits.earliest u ⟨v, same⟩
  have at_u : text[u.length]? = some c := by simp [← same]
  rw [fits.whole, List.append_assoc, List.getElem?_append_left shorter, lead, List.append_assoc,
    List.getElem?_append_right late] at at_u
  have edge : isEdge c = true := by
    rcases List.mem_append.mp (List.mem_of_getElem? at_u) with member | member
    · exact fits.lineBreak_edges c member
    · exact isEdge_of_isBlank (fits.indented c member)
  rw [edge] at clear
  cases clear

theorem lineStart_of_visible (fits : Fits delimiter sourceStart text o)
    (same : o.lead = more ++ mark :: between) (visible : isBlank mark = false)
    (line : '\n' ∉ mark :: between) : o.lineStart = none := by
  have apart := not_lineStart_of_visible (same.symm.trans (rfl : o.lead = _ ++ o.indent))
    fits.indented visible line
  cases starts : o.lineStart with
  | none => rfl
  | some newline =>
    rcases fits.begins newline starts with isBreak | ⟨rfl, empty, -⟩
    · obtain ⟨lead, rfl, -⟩ := isBreak.eq_append
      exact absurd (by simp [lineBreak, starts]) apart.2
    · exact absurd (by simp [lineBreak, starts, empty]) apart.1

end Fits
end Opening
end Mustache
