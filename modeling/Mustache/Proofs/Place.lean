import Mustache.Proofs.Run

namespace Mustache
open Text

-- A scan right behind the tag `p`: `front` ends with the tag, and `p` has taken the rest of what
-- was read.
structure Behind (u : Scan) (ahead : List Char) (p : Stretch) (front : List Char) : Prop where
  parts : ahead = front ++ p.skipped
  stop : size front = p.span.stop
  inked : ∃ lead c, front = lead ++ [c] ∧ isEdge c = false
  line : p.skipped = [] ∨ IsLineEnd p.skipped u.rest
  offset : u.offset = p.next.offset
  carried : u.afterDefinition = p.closes

theorem Behind.breaks (behind : Behind u ahead p front) (more : u.rest ≠ []) :
    p.skipped = [] ∨ ∃ taken, p.skipped = taken ++ ['\n'] := by
  rcases behind.line with none | ⟨blanks, newline, same, -, isBreak | ⟨-, ended⟩⟩
  · exact Or.inl none
  · obtain ⟨lead, rfl, -⟩ := isBreak.eq_append
    exact Or.inr ⟨blanks ++ lead, by rw [same, List.append_assoc]⟩
  · exact absurd ended more

structure Place (source : List Char) (earlier : List Stretch) (u : Scan) (ahead : List Char) :
    Prop where
  whole : source = ahead ++ u.rest
  reached : size ahead = u.offset
  before : earlier = [] ∧ ahead = [] ∧ u.afterDefinition = false ∨
    ∃ p front, earlier.getLast? = some p ∧ Behind u ahead p front

theorem Delimiters.IsWord.inked (word : IsWord delimiter) (lead : List Char) :
    ∃ more c, lead ++ delimiter.toList = more ++ [c] ∧ isEdge c = false := by
  refine ⟨lead ++ delimiter.toList.dropLast, delimiter.toList.getLast word.1, ?_, ?_⟩
  · rw [List.append_assoc, List.dropLast_concat_getLast]
  · cases edge : isEdge (delimiter.toList.getLast word.1) with
    | false => rfl
    | true =>
      have inked := word.2 _ (List.getLast_mem word.1)
      rw [isSpace_of_isEdge edge] at inked
      cases inked

theorem Stretch.Sound.behind (sound : Stretch.Sound p) (words : p.scan.active.Words)
    (whole : source = ahead ++ p.scan.rest) (reached : size ahead = p.scan.offset) :
    ∃ front, source = front ++ p.skipped ++ p.next.rest ∧
      Behind p.next (front ++ p.skipped) p front := by
  obtain ⟨lead, c, ends, inked⟩ := words.closing.inked
    (ahead ++ p.opening.lead ++ (p.scan.active.opening.toList ++ p.closing.body))
  refine ⟨lead ++ [c], ?_, rfl, ?_, ⟨lead, c, rfl, inked⟩, ?_, rfl, rfl⟩
  · rw [whole, sound.whole, p.skipped_rest, ← ends]
    simp only [List.append_assoc]
  · rw [← ends, p.span_stop, p.span_start]
    simp only [size_append]
    omega
  · rcases cutLineEnd_fst (p.isStandalone || p.closes) p.closing.rest with none | ⟨-, line⟩
    · exact Or.inl none
    · exact Or.inr line

def Partway (source : List Char) (s : Scan) : Prop :=
  s.active.Words ∧ ∃ ahead, source = ahead ++ s.rest ∧ size ahead = s.offset

theorem partway_start (words : pair.Words) : Partway source (Scan.start source pair) :=
  ⟨words, Scan.upto_start source pair⟩

theorem partway_next (t : Stretch) (sound : t.Sound) (partway : Partway source t.scan) :
    Partway source t.next :=
  ⟨Stretch.next_words partway.1, Scan.Upto.next t sound partway.2⟩

theorem place_of_reaches (path : Scan.Reaches (Scan.start source pair) earlier u)
    (words : pair.Words) : ∃ ahead, Place source earlier u ahead := by
  rcases path.latest partway_next (partway_start words) with
    ⟨rfl, rfl⟩ | ⟨p, found, rfl, sound, words, ahead, whole, reached⟩
  · exact ⟨[], rfl, rfl, Or.inl ⟨rfl, rfl, rfl⟩⟩
  · obtain ⟨front, whole, behind⟩ := sound.behind words whole reached
    refine ⟨front ++ p.skipped, whole, ?_, Or.inr ⟨p, front, found, behind⟩⟩
    rw [size_append, behind.stop, p.next_offset]

structure Stands (source : List Char) (earlier : List Stretch) (t : Stretch) (ahead : List Char) :
    Prop where
  sound : t.Sound
  words : t.scan.active.Words
  place : Place source earlier t.scan ahead

namespace Stands

theorem whole (stands : Stands source earlier t ahead) : source = ahead ++ t.opening.lead ++
    (t.scan.active.opening.toList ++ t.closing.body ++ t.scan.active.closing.toList) ++
      t.closing.rest := by
  rw [stands.place.whole, stands.sound.whole]
  simp only [List.append_assoc]

theorem start_eq (stands : Stands source earlier t ahead) :
    size (ahead ++ t.opening.lead) = t.span.start := by
  rw [size_append, stands.place.reached, t.span_start]

theorem stop_eq (stands : Stands source earlier t ahead) : size (ahead ++ t.opening.lead ++
    (t.scan.active.opening.toList ++ t.closing.body ++ t.scan.active.closing.toList)) =
      t.span.stop := by
  rw [size_append, stands.start_eq, t.span_stop]

theorem rest_ne_nil (stands : Stands source earlier t ahead) : t.scan.rest ≠ [] := by
  intro empty
  have whole := stands.sound.whole
  rw [empty, eq_comm] at whole
  simp only [List.append_eq_nil_iff] at whole
  exact stands.words.opening.1 whole.1.2.1.1

theorem bare (stands : Stands source earlier t ahead) :
    Bare (ahead ++ t.opening.before ++ t.opening.lineBreak) := by
  have fits := stands.sound.opens
  cases starts : t.opening.lineStart with
  | some newline =>
    rcases fits.begins newline starts with isBreak | ⟨rfl, empty, start⟩
    · obtain ⟨lead, rfl, -⟩ := isBreak.eq_append
      rw [Opening.lineBreak, starts, Option.getD_some, ← List.append_assoc]
      exact bare_append (by simp [Bare, isBlank]) (by simp)
    · have none : ahead = [] := by
        have reached := stands.place.reached
        have length := length_le_size ahead
        have zero : t.scan.offset = 0 := by simpa using start
        exact List.eq_nil_of_length_eq_zero (by omega)
      rw [none, empty, Opening.lineBreak, starts]
      exact bare_nil
  | none =>
    rw [Opening.lineBreak, starts, Option.getD_none, List.append_nil]
    by_cases empty : t.opening.before = []
    · rw [empty, List.append_nil]
      rcases stands.place.before with ⟨-, rfl, -⟩ | ⟨p, front, -, behind⟩
      · exact bare_nil
      · obtain ⟨lead, c, rfl, inked⟩ := behind.inked
        rw [behind.parts]
        rcases behind.breaks stands.rest_ne_nil with none | ⟨taken, same⟩
        · rw [none, List.append_nil]
          refine bare_append ?_ (by simp)
          simp only [isEdge, Bool.or_eq_false_iff] at inked
          simp [Bare, inked.1.1]
        · rw [same, ← List.append_assoc]
          exact bare_append (by simp [Bare, isBlank]) (by simp)
    · exact bare_append (fits.goesOn starts).1 empty

end Stands

theorem stands_of_stretches (begun : Scan.start? source pair = .ok s) (words : pair.Words)
    (split : s.stretches = earlier ++ t :: later) :
    s.active.HasExtent ∧ ∃ ahead, Stands source.toList earlier t ahead := by
  obtain ⟨-, rfl⟩ := Scan.start_eq_ok_iff.mp begun
  have extent : (Scan.start source.toList pair).active.HasExtent := words.clear.hasExtent
  obtain ⟨path, sound, -⟩ := Scan.reaches_of_stretches extent split
  obtain ⟨ahead, place⟩ := place_of_reaches path words
  have partway := path.invariant partway_next (partway_start words)
  exact ⟨extent, ahead, sound, partway.1, place⟩

theorem runs_slice (begun : Scan.start? source pair = .ok s) (words : pair.Words)
    (member : run ∈ s.runs) : slice? source.toList run.start run.stop = some run.text := by
  rcases Scan.mem_runs.mp member with ⟨t, found, rfl, -⟩ | found
  · obtain ⟨earlier, later, split⟩ := List.append_of_mem found
    obtain ⟨-, ahead, stands⟩ := stands_of_stretches begun words split
    have reached := stands.place.reached
    have whole := stands.whole
    rw [t.kept_dropped, List.append_assoc, ← List.append_assoc ahead, List.append_assoc _ t.dropped]
      at whole
    refine slice_eq_some_iff.mpr ⟨ahead, _, whole, reached, ?_⟩
    rw [reached]
    rfl
  · obtain ⟨-, rfl⟩ := Scan.start_eq_ok_iff.mp begun
    have extent : (Scan.start source.toList pair).active.HasExtent := words.clear.hasExtent
    obtain ⟨-, ahead, whole, reached⟩ :=
      (Scan.reaches_last extent).invariant partway_next (partway_start words)
    unfold Scan.lastRun at found
    split at found
    · rename_i text next ends
      rw [List.mem_singleton] at found
      subst found
      have text_eq : text = (Scan.start source.toList pair).last.rest := by
        unfold Scan.round at ends
        repeat' split at ends
        all_goals cases ends
        rfl
      rw [← text_eq, ← List.append_nil text, ← List.append_assoc] at whole
      refine slice_eq_some_iff.mpr ⟨ahead, [], whole, reached, ?_⟩
      rw [reached]
      rfl
    · cases found

end Mustache
