import Mathlib.Data.List.TakeWhile
import Mustache.Proofs.Words

namespace Mustache

namespace Text
variable {run rest a b x y : List Char}

theorem span_stops {p : Char → Bool} (passes : ∀ c ∈ run, p c = true)
    (stops : ∀ c ∈ rest.head?, p c = false) :
    (run ++ rest).takeWhile p = run ∧ (run ++ rest).dropWhile p = rest := by
  have ended : rest.takeWhile p = [] ∧ rest.dropWhile p = rest := by
    cases rest with
    | nil => exact ⟨rfl, rfl⟩
    | cons c rest => simp [stops c rfl]
  constructor
  · rw [List.takeWhile_append_of_pos passes, ended.1, List.append_nil]
  · rw [List.dropWhile_append_of_pos passes, ended.2]

theorem span_unique {p : Char → Bool} (same : a ++ x = b ++ y) (left : ∀ c ∈ a, p c = true)
    (right : ∀ c ∈ b, p c = true) (stopsLeft : ∀ c ∈ x.head?, p c = false)
    (stopsRight : ∀ c ∈ y.head?, p c = false) : a = b ∧ x = y := by
  have one := span_stops left stopsLeft
  have two := span_stops right stopsRight
  rw [same] at one
  exact ⟨one.1.symm.trans two.1, one.2.symm.trans two.2⟩

end Text

open Text

namespace Delimiters
variable {text body : List Char}

theorem isSpace_of_isPadding (padding : isPadding c = true) : isSpace c = true := by
  simp only [isPadding, Bool.or_eq_true, decide_eq_true_eq] at padding
  rcases padding with rfl | rfl
  · decide
  · decide

theorem IsWord.inside (word : IsWord delimiter) : ∀ c ∈ delimiter.toList, (!isSpace c) = true := by
  intro c member
  simp [word.2 c member]

theorem IsWord.stops (word : IsWord delimiter) (rest : List Char) :
    ∀ c ∈ (delimiter.toList ++ rest).head?, isPadding c = false := by
  intro c first
  obtain ⟨d, more, shape⟩ := List.exists_cons_of_ne_nil word.1
  rw [shape] at first
  cases first
  cases padding : isPadding c with
  | false => rfl
  | true =>
    have inked := word.2 c (by simp [shape])
    rw [isSpace_of_isPadding padding] at inked
    cases inked

theorem padding_stops {gap : List Char} (padded : ∀ c ∈ gap, isPadding c = true) :
    ∀ c ∈ gap.head?, (!isSpace c) = false := by
  intro c first
  have space := isSpace_of_isPadding (padded c (List.mem_of_mem_head? first))
  simp [space]

structure WordCut (text : List Char) where
  before : List Char
  pair : Delimiters
  between : List Char
  behind : List Char
  whole : text = before ++ (pair.opening.toList ++ (between ++ (pair.closing.toList ++ behind)))
  leads : ∀ c ∈ before, isPadding c = true
  parts : ∀ c ∈ between, isPadding c = true
  trails : ∀ c ∈ behind, isPadding c = true
  apart : between ≠ []
  words : pair.Words

namespace WordCut

theorem between_stops (cut : WordCut text) (rest : List Char) :
    ∀ c ∈ (cut.between ++ rest).head?, (!isSpace c) = false := by
  intro c first
  obtain ⟨d, more, shape⟩ := List.exists_cons_of_ne_nil cut.apart
  apply padding_stops cut.parts
  rw [shape] at first ⊢
  exact first

theorem reads (cut : WordCut text) : ofWords? text = some cut.pair := by
  obtain ⟨-, opens⟩ := span_stops cut.leads (cut.words.opening.stops _)
  obtain ⟨opening, gap⟩ := span_stops cut.words.opening.inside
    (cut.between_stops (cut.pair.closing.toList ++ cut.behind))
  obtain ⟨-, closes⟩ := span_stops cut.parts (cut.words.closing.stops cut.behind)
  obtain ⟨closing, rest⟩ := span_stops cut.words.closing.inside (padding_stops cut.trails)
  have spent : cut.behind.dropWhile isPadding = [] :=
    List.dropWhile_eq_nil_iff.mpr cut.trails
  rw [← cut.whole] at opens
  unfold ofWords?
  simp only [opens, opening, gap, closes, closing, rest, spent]
  simp [cut.words.opening.1, cut.words.closing.1]

-- Each piece reaches as far as its characters go, so that there is no choice.
theorem unique (one two : WordCut text) : one = two := by
  have same := one.whole.symm.trans two.whole
  obtain ⟨before, same⟩ := span_unique same one.leads two.leads
    (one.words.opening.stops _) (two.words.opening.stops _)
  obtain ⟨opening, same⟩ := span_unique same one.words.opening.inside two.words.opening.inside
    (one.between_stops _) (two.between_stops _)
  obtain ⟨between, same⟩ := span_unique same one.parts two.parts
    (one.words.closing.stops _) (two.words.closing.stops _)
  obtain ⟨closing, behind⟩ := span_unique same one.words.closing.inside two.words.closing.inside
    (padding_stops one.trails) (padding_stops two.trails)
  obtain ⟨before₁, ⟨opening₁, closing₁⟩, between₁, behind₁⟩ := one
  obtain ⟨before₂, ⟨opening₂, closing₂⟩, between₂, behind₂⟩ := two
  cases String.toList_inj.mp opening
  cases String.toList_inj.mp closing
  cases before
  cases between
  cases behind
  rfl

end WordCut

theorem cut_of_ofWords (found : ofWords? text = some pair) : ∃ cut : WordCut text, cut.pair = pair := by
  have words := ofWords_words found
  unfold ofWords? at found
  dsimp only at found
  split at found
  · cases found
  · rename_i full
    simp only [Bool.or_eq_true, Bool.not_eq_true', List.isEmpty_iff, not_or,
      Bool.not_eq_false] at full
    obtain ⟨⟨-, nonempty⟩, spent⟩ := full
    cases found
    have opens : text.takeWhile isPadding ++ text.dropWhile isPadding = text :=
      List.takeWhile_append_dropWhile
    generalize text.dropWhile isPadding = fromOpening at *
    have gaps : fromOpening.takeWhile (!isSpace ·) ++ fromOpening.dropWhile (!isSpace ·) = fromOpening :=
      List.takeWhile_append_dropWhile
    have spaced := head_dropWhile (!isSpace ·) fromOpening
    generalize fromOpening.dropWhile (!isSpace ·) = fromGap at *
    have closes : fromGap.takeWhile isPadding ++ fromGap.dropWhile isPadding = fromGap :=
      List.takeWhile_append_dropWhile
    generalize shape : fromGap.dropWhile isPadding = fromClosing at *
    have ends : fromClosing.takeWhile (!isSpace ·) ++ fromClosing.dropWhile (!isSpace ·) = fromClosing :=
      List.takeWhile_append_dropWhile
    refine ⟨⟨text.takeWhile isPadding, _, fromGap.takeWhile isPadding,
      fromClosing.dropWhile (!isSpace ·), ?_, fun c => List.mem_takeWhile_imp,
      fun c => List.mem_takeWhile_imp, List.dropWhile_eq_nil_iff.mp spent, ?_, words⟩, rfl⟩
    · simp only [String.toList_ofList]
      rw [ends, closes, gaps, opens]
    · intro joined
      rw [joined, List.nil_append] at closes
      subst closes
      apply nonempty
      cases fromClosing with
      | nil => rfl
      | cons c rest => simp [spaced c rfl]

structure ChangeCut (body : List Char) where
  text : List Char
  framed : body = '=' :: (text ++ ['='])
  cut : WordCut text

theorem ofChange_of_framed (framed : body = '=' :: (text ++ ['='])) :
    ofChange? body = ofWords? text := by
  rw [framed]
  unfold ofChange?
  simp

theorem framed_of_ofChange (found : ofChange? body = some pair) :
    ∃ text, body = '=' :: (text ++ ['=']) := by
  unfold ofChange? at found
  split at found
  · rename_i rest
    split at found
    · rename_i kept reversed
      refine ⟨kept.reverse, ?_⟩
      rw [← List.reverse_reverse rest, reversed, List.reverse_cons]
    · cases found
  · cases found

theorem ChangeCut.unique (one two : ChangeCut body) : one = two := by
  obtain ⟨text, framed, cut⟩ := one
  obtain ⟨text', framed', cut'⟩ := two
  rw [framed] at framed'
  obtain ⟨-, same⟩ := List.cons.inj framed'
  cases List.append_cancel_right same
  cases cut.unique cut'
  rfl

-- A change is read off a body exactly where the body can be cut so, which is in one way at most.
theorem ofChange_iff_cut (body : List Char) :
    (∀ pair, ofChange? body = some pair ↔ ∃ change : ChangeCut body, change.cut.pair = pair) ∧
    (∀ one two : ChangeCut body, one = two) ∧
    (ofChange? body = none ↔ ¬ Nonempty (ChangeCut body)) := by
  have exact : ∀ pair, ofChange? body = some pair ↔
      ∃ change : ChangeCut body, change.cut.pair = pair := by
    intro pair
    constructor
    · intro found
      obtain ⟨text, framed⟩ := framed_of_ofChange found
      rw [ofChange_of_framed framed] at found
      obtain ⟨cut, same⟩ := cut_of_ofWords found
      exact ⟨⟨text, framed, cut⟩, same⟩
    · rintro ⟨⟨text, framed, cut⟩, rfl⟩
      rw [ofChange_of_framed framed]
      exact cut.reads
  refine ⟨exact, ChangeCut.unique, ?_⟩
  constructor
  · rintro missed ⟨change⟩
    rw [(exact _).mpr ⟨change, rfl⟩] at missed
    cases missed
  · intro uncut
    cases found : ofChange? body with
    | none => rfl
    | some pair =>
      obtain ⟨change, -⟩ := (exact pair).mp found
      exact absurd ⟨change⟩ uncut

end Delimiters

namespace SignWords
open Delimiters

def body : List Char := "= =\t===".toList

def change : ChangeCut body where
  text := " =\t==".toList
  framed := rfl
  cut :=
    { before := [' ']
      pair := ⟨"=", "=="⟩
      between := ['\t']
      behind := []
      whole := rfl
      leads := by simp [isPadding]
      parts := by simp [isPadding]
      trails := by simp
      apart := by decide
      words := ⟨isWord_of_all (by decide) rfl, isWord_of_all (by decide) rfl⟩ }

end SignWords

open SignWords in
theorem Delimiters.ofChange_signs : ofChange? body = some ⟨"=", "=="⟩ ∧
    ∀ other : ChangeCut body, other = change := by
  obtain ⟨reads, unique, -⟩ := ofChange_iff_cut body
  exact ⟨(reads _).mpr ⟨change, rfl⟩, fun other => unique other change⟩

end Mustache
