import Mustache.Proofs.Line
import Mustache.Tag.Scan

namespace Mustache
open Text

namespace Delimiters

def IsWord (delimiter : String) : Prop :=
  delimiter.toList ≠ [] ∧ ∀ c ∈ delimiter.toList, isSpace c = false

structure Words (pair : Delimiters) : Prop where
  opening : IsWord pair.opening
  closing : IsWord pair.closing

-- The open delimiter cannot be confused with the edge of a line.
structure Clear (pair : Delimiters) : Prop where
  opens : ∃ c rest, pair.opening.toList = c :: rest ∧ isEdge c = false
  closes : pair.closing.toList ≠ []

theorem IsWord.cons (word : IsWord delimiter) :
    ∃ c rest, delimiter.toList = c :: rest ∧ isEdge c = false := by
  obtain ⟨c, rest, shape⟩ := List.exists_cons_of_ne_nil word.1
  refine ⟨c, rest, shape, ?_⟩
  cases edge : isEdge c with
  | false => rfl
  | true =>
    have inked := word.2 c (by simp [shape])
    rw [isSpace_of_isEdge edge] at inked
    cases inked

theorem Words.clear (words : Words pair) : Clear pair := ⟨words.opening.cons, words.closing.1⟩

theorem isWord_of_all (full : delimiter.toList ≠ [])
    (inked : delimiter.toList.all (!isSpace ·) = true) : IsWord delimiter := by
  refine ⟨full, fun c member => ?_⟩
  simpa using List.all_eq_true.mp inked c member

theorem standard_words : Words standard where
  opening := isWord_of_all (by decide) rfl
  closing := isWord_of_all (by decide) rfl

theorem isWord_takeWhile {text : List Char} (nonempty : text.takeWhile (!isSpace ·) ≠ []) :
    IsWord (String.ofList (text.takeWhile (!isSpace ·))) := by
  refine isWord_of_all ?_ ?_
  · rw [String.toList_ofList]
    exact nonempty
  · rw [String.toList_ofList]
    exact List.all_takeWhile

theorem ofWords_words (found : ofWords? text = some pair) : Words pair := by
  unfold ofWords? at found
  dsimp only at found
  split at found
  · cases found
  · rename_i full
    cases Option.some.inj found
    simp only [Bool.or_eq_true, List.isEmpty_iff, not_or] at full
    exact ⟨isWord_takeWhile full.1.1, isWord_takeWhile full.1.2⟩

theorem ofChange_words (found : ofChange? body = some pair) : Words pair := by
  unfold ofChange? at found
  split at found
  · split at found
    · exact ofWords_words found
    · cases found
  · cases found

end Delimiters

namespace Tag

theorem ofBody_ne_text (active : Delimiters) (span : Span) (indent body : List Char) (run : String) :
    ofBody active span indent body ≠ some (.text run) := by
  intro found
  unfold ofBody at found
  repeat' split at found
  all_goals simp at found

theorem ofBody_delimiterChange
    (found : ofBody active span indent body = some (.delimiterChange pair)) :
    Delimiters.ofChange? body = some pair := by
  unfold ofBody at found
  repeat' split at found
  all_goals simp at found
  subst found
  assumption

theorem ofBody_of_not_reference (plain : ∀ key blanks,
    ofBody active span indent body ≠ some (.reference key blanks)) (other : List Char) :
    ofBody active span other body = ofBody active span indent body := by
  unfold ofBody at plain ⊢
  repeat' split
  all_goals first | rfl | simp at plain

theorem ofBody_sectionStart
    (found : ofBody active span indent body = some (.sectionStart inverted key start pair)) :
    start = span.stop ∧ pair = active := by
  unfold ofBody at found
  repeat' split at found
  all_goals simp at found
  all_goals exact ⟨found.2.2.1.symm, found.2.2.2.symm⟩

theorem ofBody_blockEnd (found : ofBody active span indent body = some (.blockEnd key stop)) :
    stop = span.start := by
  unfold ofBody at found
  repeat' split at found
  all_goals simp at found
  exact found.2.symm

theorem ofBody_reference (found : ofBody active span blanks body = some (.reference key indent)) :
    indent = String.ofList blanks := by
  unfold ofBody at found
  repeat' split at found
  all_goals simp at found
  exact found.2.symm

end Tag

theorem activeAfter_invariant {P : Delimiters → Prop} (standard : P .standard)
    (changed : ∀ pair, pair.Words → P pair) (now : P active)
    (met : tag = Tag.ofBody pair span indent body) : P (activeAfter tag blocks active) := by
  unfold activeAfter
  split
  · exact standard
  · split
    · exact changed _ (Delimiters.ofChange_words (Tag.ofBody_delimiterChange met.symm))
    · exact now

end Mustache
