import Mustache.Proofs.Origin

namespace Mustache
open Text

namespace Text
variable {source whole piece : List Char}

theorem size_toList (text : String) : size text.toList = text.utf8ByteSize := by
  have bytes (chars : List Char) : (String.ofList chars).utf8ByteSize = size chars := by
    induction chars with
    | nil => rfl
    | cons c chars ih =>
      rw [String.ofList_cons, String.utf8ByteSize_append, String.utf8ByteSize_singleton, size_cons, ih]
  rw [← bytes, String.ofList_toList]

theorem slice_of_skip (left : skip? start source = some (piece ++ rest)) :
    slice? source start (start + size piece) = some piece ∧
      skip? (start + size piece) source = some rest := by
  obtain ⟨before, whole, reached⟩ := skip_eq_some_iff.mp left
  constructor
  · refine slice_eq_some_iff.mpr ⟨before, rest, ?_, reached, by rw [reached]⟩
    rw [whole, List.append_assoc]
  · refine skip_eq_some_iff.mpr ⟨before ++ piece, ?_, by rw [size_append, reached]⟩
    rw [whole, List.append_assoc]

theorem le_of_skip (left : skip? start source = some rest) : start ≤ size source := by
  obtain ⟨before, rfl, reached⟩ := skip_eq_some_iff.mp left
  rw [size_append]
  omega

def SliceOf (source : List Char) (lower upper : Nat) (piece : List Char) : Prop :=
  ∃ start stop, lower ≤ start ∧ start ≤ stop ∧ stop ≤ upper ∧ slice? source start stop = some piece

theorem slice_within (found : slice? source start stop = some (ahead ++ piece ++ behind)) :
    slice? source (start + size ahead) (start + size ahead + size piece) = some piece := by
  obtain ⟨before, after, whole, reached, -⟩ := slice_eq_some_iff.mp found
  have left : skip? (start + size ahead) source = some (piece ++ (behind ++ after)) := by
    refine skip_eq_some_iff.mpr ⟨before ++ ahead, ?_, by rw [size_append, reached]⟩
    rw [whole]
    simp only [List.append_assoc]
  exact (slice_of_skip left).1

theorem sliceOf_within (found : slice? source start stop = some (ahead ++ piece ++ behind))
    (least : lower ≤ start + size ahead) (most : start + size ahead + size piece ≤ upper) :
    SliceOf source lower upper piece :=
  ⟨_, _, least, Nat.le_add_right _ _, most, slice_within found⟩

theorem slice_stop (found : slice? source start stop = some piece) : stop = start + size piece := by
  obtain ⟨before, after, -, reached, ended⟩ := slice_eq_some_iff.mp found
  omega

theorem sliceOf_piece (found : slice? source start stop = some whole) (inside : piece <:+: whole) :
    SliceOf source start stop piece := by
  obtain ⟨ahead, behind, rfl⟩ := inside
  have ended := slice_stop found
  simp only [size_append] at ended
  exact sliceOf_within found (Nat.le_add_right _ _) (by omega)

end Text

namespace Delimiters

theorem ofWords_parts (found : ofWords? text = some pair) : ∃ a b c,
    text = a ++ pair.opening.toList ++ b ++ pair.closing.toList ++ c := by
  have cut (p : Char → Bool) (text : List Char) : text = text.takeWhile p ++ text.dropWhile p :=
    List.takeWhile_append_dropWhile.symm
  unfold ofWords? at found
  dsimp only at found
  split at found
  · cases found
  · cases found
    generalize front : text.dropWhile isPadding = opens
    generalize middle : opens.dropWhile (!isSpace ·) = gap
    generalize back : gap.dropWhile isPadding = closes
    refine ⟨text.takeWhile isPadding, gap.takeWhile isPadding, closes.dropWhile (!isSpace ·), ?_⟩
    simp only [String.toList_ofList, List.append_assoc]
    rw [← cut (!isSpace ·) closes, ← back, ← cut isPadding gap, ← middle, ← cut (!isSpace ·) opens,
      ← front, ← cut isPadding text]

theorem ofChange_parts (found : ofChange? body = some pair) : ∃ a b c,
    body = a ++ pair.opening.toList ++ b ++ pair.closing.toList ++ c := by
  unfold ofChange? at found
  split at found
  · rename_i rest
    split at found
    · rename_i kept reversed
      obtain ⟨a, b, c, parts⟩ := ofWords_parts found
      refine ⟨'=' :: a, b, c ++ ['='], ?_⟩
      rw [← List.reverse_reverse rest, reversed, List.reverse_cons, parts]
      simp only [List.cons_append, List.append_assoc]
    · cases found
  · cases found

end Delimiters

namespace Stretch
variable {t : Stretch} {source : List Char}

def bodyStart (t : Stretch) : Nat := t.span.start + size t.scan.active.opening.toList

def bodyStop (t : Stretch) : Nat := t.bodyStart + size t.closing.body

-- What is taken out of the source for a tag. Each of the six pieces begins where the one before it
-- ends; the body behind its first character, its key and the pair that it changes to are pieces of the
-- body.
structure Sliced (source : List Char) (t : Stretch) : Prop where
  kept : slice? source t.scan.offset t.run.stop = some t.kept
  dropped : slice? source t.run.stop t.span.start = some t.dropped
  opening : slice? source t.span.start t.bodyStart = some t.scan.active.opening.toList
  body : slice? source t.bodyStart t.bodyStop = some t.closing.body
  closing : slice? source t.bodyStop t.span.stop = some t.scan.active.closing.toList
  skipped : slice? source t.span.stop t.next.offset = some t.skipped
  bounded : t.next.offset ≤ size source
  behind : ∀ c rest, t.closing.body = c :: rest →
    slice? source (t.bodyStart + c.utf8Size) t.bodyStop = some rest
  key : ∀ tag key, t.tag = some tag → tag.key? = some key →
    SliceOf source t.bodyStart t.bodyStop key.toList
  pair : ∀ pair, t.tag = some (.delimiterChange pair) → ∃ middle,
    SliceOf source t.bodyStart middle pair.opening.toList ∧
      SliceOf source middle t.bodyStop pair.closing.toList

theorem Sound.sliced (sound : Sound t) (upto : Scan.Upto source t.scan) : t.Sliced source := by
  have left : skip? t.scan.offset source = some t.scan.rest := skip_eq_some_iff.mpr upto
  have parts : t.scan.rest = t.kept ++ (t.dropped ++ (t.scan.active.opening.toList ++
      (t.closing.body ++ (t.scan.active.closing.toList ++ (t.skipped ++ t.next.rest))))) := by
    rw [sound.whole, t.kept_dropped, t.skipped_rest]
    simp only [List.append_assoc]
  rw [parts] at left
  obtain ⟨kept, left⟩ := slice_of_skip left
  obtain ⟨dropped, left⟩ := slice_of_skip left
  have start : t.scan.offset + size t.kept + size t.dropped = t.span.start := by
    rw [span_start, t.kept_dropped, size_append, Nat.add_assoc]
  rw [start] at dropped left
  obtain ⟨opening, left⟩ := slice_of_skip left
  obtain ⟨body, left⟩ := slice_of_skip left
  obtain ⟨closing, left⟩ := slice_of_skip left
  have stop : t.bodyStop + size t.scan.active.closing.toList = t.span.stop := by
    simp only [span_stop, bodyStop, bodyStart, size_append, Nat.add_assoc]
  change slice? source t.bodyStart t.bodyStop = _ at body
  change slice? source t.bodyStop (t.bodyStop + _) = _ at closing
  change skip? (t.bodyStop + _) source = _ at left
  rw [stop] at closing left
  obtain ⟨skipped, left⟩ := slice_of_skip left
  refine ⟨kept, dropped, opening, body, closing, skipped, le_of_skip left, fun c rest same => ?_,
    fun tag key found named => ?_, fun pair changed => ?_⟩
  · have inner : slice? source t.bodyStart t.bodyStop = some ([c] ++ rest ++ []) := by
      rw [body, same, List.append_nil]
      rfl
    have ended := slice_stop inner
    have behind := slice_within inner
    simp only [size_append, size_cons, size_nil, Nat.add_zero] at ended behind
    rwa [ended, ← Nat.add_assoc]
  · rw [t.tag_eq] at found
    exact sliceOf_piece body (Tag.key_piece found named)
  · rw [t.tag_eq] at changed
    obtain ⟨a, b, c, same⟩ := Delimiters.ofChange_parts (Tag.ofBody_delimiterChange changed)
    rw [same] at body
    have ended := slice_stop body
    have first : slice? source t.bodyStart t.bodyStop =
        some (a ++ pair.opening.toList ++ (b ++ pair.closing.toList ++ c)) := by
      rw [body]
      simp only [List.append_assoc]
    simp only [size_append] at ended
    refine ⟨t.bodyStart + size a + size pair.opening.toList,
      sliceOf_within first (Nat.le_add_right _ _) (Nat.le_refl _), sliceOf_within body ?_ ?_⟩
    · simp only [size_append]
      omega
    · simp only [size_append]
      omega

end Stretch
end Mustache
