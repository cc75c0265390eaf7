import Mustache.Text.Blank

namespace Mustache.Text

def isEdge (c : Char) : Bool := isBlank c || c = '\r' || c = '\n'

theorem isSpace_of_isEdge (edge : isEdge c = true) : isSpace c = true := by
  simp only [isEdge, Bool.or_eq_true, decide_eq_true_eq] at edge
  rcases edge with (blank | rfl) | rfl
  · exact isSpace_of_isBlank blank
  · decide
  · decide

theorem isEdge_of_isBlank (blank : isBlank c = true) : isEdge c = true := by simp [isEdge, blank]

def Bare (text : List Char) : Prop := ∀ c, text.getLast? = some c → isBlank c = false

theorem bare_nil : Bare [] := by simp [Bare]

theorem getLast_append_of_full {a b : List Char} (full : b ≠ []) :
    (a ++ b).getLast? = b.getLast? := by
  rw [List.getLast?_append, List.getLast?_eq_some_getLast full, Option.some_or]

theorem bare_append (bare : Bare b) (nonempty : b ≠ []) : Bare (a ++ b) := by
  intro c last
  rw [getLast_append_of_full nonempty] at last
  exact bare c last

theorem Bare.takeWhile_reverse (bare : Bare a) (blank : ∀ c ∈ blanks, isBlank c = true) :
    (a ++ blanks).reverse.takeWhile isBlank = blanks.reverse := by
  rw [List.reverse_append, List.takeWhile_append_of_pos (by simpa using blank)]
  cases shape : a.reverse with
  | nil => simp
  | cons c rest =>
    have last : a.getLast? = some c := by rw [List.getLast?_eq_head?_reverse, shape]; rfl
    simp [bare c last]

theorem Bare.parts (same : a ++ x = b ++ y) (left : Bare a) (right : Bare b)
    (blankX : ∀ c ∈ x, isBlank c = true) (blankY : ∀ c ∈ y, isBlank c = true) : a = b ∧ x = y := by
  have tails : x.reverse = y.reverse := by
    rw [← left.takeWhile_reverse blankX, same, right.takeWhile_reverse blankY]
  have equal : x = y := List.reverse_inj.mp tails
  subst equal
  exact ⟨List.append_cancel_right same, rfl⟩

theorem not_lineStart_of_visible (same : more ++ mark :: between = lead ++ blanks)
    (blank : ∀ c ∈ blanks, isBlank c = true) (visible : isBlank mark = false)
    (line : '\n' ∉ mark :: between) : lead ≠ [] ∧ lead.getLast? ≠ some '\n' := by
  have outside : mark ∉ blanks := fun member => by rw [blank mark member] at visible; cases visible
  rcases List.append_eq_append_iff.mp same with ⟨tail, rfl, parts⟩ | ⟨tail, rfl, rfl⟩
  · cases tail with
    | nil => exact absurd (by rw [List.nil_append] at parts; simp [← parts]) outside
    | cons c tail =>
      refine ⟨by simp, fun last => line ?_⟩
      rw [getLast_append_of_full (List.cons_ne_nil c tail)] at last
      rw [parts]
      exact List.mem_append_left _ (List.mem_of_getLast? last)
  · exact absurd (by simp) outside

def IsBreak (text : List Char) : Prop := text = ['\n'] ∨ text = ['\r', '\n']

theorem IsBreak.eq_append (isBreak : IsBreak lineBreak) :
    ∃ lead, lineBreak = lead ++ ['\n'] ∧ ∀ c ∈ lead, c = '\r' := by
  rcases isBreak with rfl | rfl
  · exact ⟨[], rfl, by simp⟩
  · exact ⟨['\r'], rfl, by simp⟩

theorem lineBreak_eq_some_iff : lineBreak? text = some (lineBreak, after) ↔
    IsBreak lineBreak ∧ text = lineBreak ++ after := by
  constructor
  · intro found
    refine ⟨?_, lineBreak_append found⟩
    unfold lineBreak? at found
    split at found
    · cases found; exact Or.inl rfl
    · cases found; exact Or.inr rfl
    · cases found
  · rintro ⟨rfl | rfl, rfl⟩
    · rfl
    · rfl

def IsLineEnd (skipped after : List Char) : Prop :=
  ∃ blanks lineBreak, skipped = blanks ++ lineBreak ∧ (∀ c ∈ blanks, isBlank c = true) ∧
    (IsBreak lineBreak ∨ lineBreak = [] ∧ after = [])

theorem lineEnd_of_blanks (blank : ∀ c ∈ blanks, isBlank c = true) :
    lineEnd? blanks = some (blanks, []) := by
  have all : (blanks ++ []).dropWhile isBlank = [] := List.dropWhile_append_of_pos blank
  rw [List.append_nil] at all
  have whole := List.takeWhile_append_dropWhile (p := isBlank) (l := blanks)
  rw [all, List.append_nil] at whole
  simp only [lineEnd?, all, whole]

theorem lineEnd_of_visible (blank : ∀ c ∈ blanks, isBlank c = true) (visible : isBlank c = false) :
    lineEnd? (blanks ++ c :: rest) =
      (lineBreak? (c :: rest)).map fun found => (blanks ++ found.1, found.2) := by
  have taken : (blanks ++ c :: rest).takeWhile isBlank = blanks := by
    rw [List.takeWhile_append_of_pos blank]
    simp [visible]
  have left : (blanks ++ c :: rest).dropWhile isBlank = c :: rest := by
    rw [List.dropWhile_append_of_pos blank]
    simp [visible]
  simp only [lineEnd?, taken, left]
  cases lineBreak? (c :: rest) <;> rfl

theorem exists_visible (text : List Char) : (∀ c ∈ text, isBlank c = true) ∨
    ∃ blanks c rest, text = blanks ++ c :: rest ∧ (∀ c ∈ blanks, isBlank c = true) ∧
      isBlank c = false := by
  induction text with
  | nil => exact Or.inl (by simp)
  | cons c text ih =>
    cases blank : isBlank c with
    | false => exact Or.inr ⟨[], c, text, rfl, by simp, blank⟩
    | true =>
      rcases ih with all | ⟨blanks, d, rest, rfl, before, visible⟩
      · exact Or.inl (by simpa [blank] using all)
      · exact Or.inr ⟨c :: blanks, d, rest, rfl, by simpa [blank] using before, visible⟩

theorem lineEnd_eq_some_iff : lineEnd? text = some (skipped, after) ↔
    text = skipped ++ after ∧ IsLineEnd skipped after := by
  constructor
  · intro found
    refine ⟨lineEnd_append found, ?_⟩
    rcases exists_visible text with blank | ⟨blanks, c, rest, rfl, blank, visible⟩
    · rw [lineEnd_of_blanks blank] at found
      cases found
      exact ⟨text, [], by simp, blank, Or.inr ⟨rfl, rfl⟩⟩
    · rw [lineEnd_of_visible blank visible, Option.map_eq_some_iff] at found
      obtain ⟨⟨lineBreak, left⟩, broke, same⟩ := found
      cases same
      exact ⟨blanks, lineBreak, rfl, blank, Or.inl (lineBreak_eq_some_iff.mp broke).1⟩
  · rintro ⟨rfl, blanks, lineBreak, rfl, blank, isBreak | ⟨rfl, rfl⟩⟩
    · have broke : lineBreak? (lineBreak ++ after) = some (lineBreak, after) :=
        lineBreak_eq_some_iff.mpr ⟨isBreak, rfl⟩
      obtain ⟨c, rest, rfl, visible⟩ : ∃ c rest, lineBreak = c :: rest ∧ isBlank c = false := by
        rcases isBreak with rfl | rfl
        · exact ⟨_, _, rfl, rfl⟩
        · exact ⟨_, _, rfl, rfl⟩
      rw [List.append_assoc, List.cons_append, lineEnd_of_visible blank visible,
        ← List.cons_append, broke]
      rfl
    · simpa using lineEnd_of_blanks blank

theorem lineEnd_eq_none (one : c ∈ line) (visible : isBlank c = false) (whole : '\n' ∉ line)
    (next : rest.head? ≠ some '\n') : lineEnd? (line ++ rest) = none := by
  rcases exists_visible line with blank | ⟨blanks, d, more, rfl, blank, first⟩
  · rw [blank c one] at visible; cases visible
  · rw [List.append_assoc, List.cons_append, lineEnd_of_visible blank first]
    simp only [List.mem_append, List.mem_cons, not_or] at whole
    have missed : lineBreak? (d :: (more ++ rest)) = none := by
      unfold lineBreak?
      split
      · rename_i same
        cases same
        exact absurd rfl whole.2.1
      · rename_i same
        injection same with _ tail
        cases more with
        | nil => rw [List.nil_append] at tail; rw [tail] at next; exact absurd rfl next
        | cons e more =>
          injection tail with head
          subst head
          exact absurd (List.mem_cons_self) whole.2.2
      · rfl
    rw [missed]
    rfl

theorem lineEnd_of_inked (inked : isEdge c = false) : lineEnd? (c :: rest) = none := by
  simp only [isEdge, Bool.or_eq_false_iff, decide_eq_false_iff_not] at inked
  have ends : lineEnd? ([] ++ c :: rest) = _ := lineEnd_of_visible (by simp) inked.1.1
  have missed : lineBreak? (c :: rest) = none := by
    unfold lineBreak?
    split
    · rename_i same; cases same; exact absurd rfl inked.2
    · rename_i same; cases same; exact absurd rfl inked.1.2
    · rfl
  rw [List.nil_append, missed] at ends
  exact ends

theorem cutLineEnd_fst (drops : Bool) (text : List Char) : (cutLineEnd drops text).1 = [] ∨
    drops = true ∧ IsLineEnd (cutLineEnd drops text).1 (cutLineEnd drops text).2 := by
  cases drops with
  | false => exact Or.inl rfl
  | true =>
    unfold cutLineEnd
    cases found : lineEnd? text with
    | none => exact Or.inl rfl
    | some pair => exact Or.inr ⟨rfl, (lineEnd_eq_some_iff.mp found).2⟩

theorem IsLineEnd.edges (lineEnd : IsLineEnd skipped after) : ∀ c ∈ skipped, isEdge c = true := by
  obtain ⟨blanks, lineBreak, rfl, blank, isBreak⟩ := lineEnd
  intro c member
  rcases List.mem_append.mp member with member | member
  · exact isEdge_of_isBlank (blank c member)
  · rcases isBreak with (rfl | rfl) | ⟨rfl, -⟩
    · simp_all [isEdge]
    · rcases List.mem_cons.mp member with rfl | member
      · rfl
      · simp_all [isEdge]
    · cases member

theorem cutLineEnd_edges (drops : Bool) (text : List Char) :
    ∀ c ∈ (cutLineEnd drops text).1, isEdge c = true := by
  rcases cutLineEnd_fst drops text with none | ⟨-, lineEnd⟩
  · simp [none]
  · exact lineEnd.edges

end Mustache.Text
