import Mustache.Proofs.Place

namespace Mustache
open Text

-- A visible character in front of the byte `start`, on the line of that byte and not before the
-- byte `reach`.
structure Stray (source : List Char) (reach start : Nat) where
  before : List Char
  mark : Char
  between : List Char
  after : List Char
  whole : source = before ++ mark :: between ++ after
  reaches : reach ≤ size before
  starts : size (before ++ mark :: between) = start
  visible : isBlank mark = false
  line : '\n' ∉ mark :: between

def reachOf (earlier : List Stretch) : Nat :=
  (earlier.getLast?.map fun p => p.span.stop).getD 0

theorem reachOf_of_latest {earlier : List Stretch} (found : earlier.getLast? = some p) :
    reachOf earlier = p.span.stop := by
  simp [reachOf, found]

namespace Stretch

-- All the text in front of the tag is handed out, a reference is not indented, and only the close
-- of a definition takes anything of the line behind it.
structure IsInline (t : Stretch) : Prop where
  text : t.run.stop = t.span.start
  reference : ∀ key indent, t.tag = some (.reference key indent) → indent = ""
  line : t.closes = false → t.next.offset = t.span.stop

theorem isInline_of_not_standalone (shared : isStandalone t = false) : t.IsInline := by
  refine ⟨?_, ?_, ?_⟩
  · rw [span_start, ← kept_of_not_standalone shared]
    rfl
  · intro key indent found
    rw [t.tag_eq, dropped, shared] at found
    exact Tag.ofBody_reference found
  · intro opens
    simp [next_offset, skipped, shared, opens, cutLineEnd]

theorem isInline_iff_of_standalone {t : Stretch} (alone : t.isStandalone = true)
    (ends : lineEnd? t.closing.rest ≠ none) : t.IsInline ↔
      t.opening.indent = [] ∧ (t.closes = true ∨ t.closing.rest = []) := by
  obtain ⟨⟨skip, rest⟩, found⟩ := Option.ne_none_iff_exists'.mp ends
  have skipped : t.skipped = skip := by
    simp [Stretch.skipped, alone, cutLineEnd, found]
  obtain ⟨parts, isLineEnd⟩ := lineEnd_eq_some_iff.mp found
  have text : t.run.stop = t.span.start ↔ t.opening.indent = [] := by
    have length := length_le_size t.opening.indent
    rw [span_start, Run.stop, run, kept, if_pos alone, Opening.lead]
    simp only [size_append]
    constructor
    · intro same
      exact List.eq_nil_of_length_eq_zero (by omega)
    · intro none
      simp [none]
  have line : t.next.offset = t.span.stop ↔ t.closing.rest = [] := by
    rw [next_offset, skipped, parts]
    have length := length_le_size skip
    constructor
    · intro same
      have none : skip = [] := List.eq_nil_of_length_eq_zero (by omega)
      obtain ⟨blanks, newline, same, -, ends⟩ := isLineEnd
      rw [none, eq_comm, List.append_eq_nil_iff] at same
      rcases ends with (isBreak | isBreak) | ⟨-, ended⟩
      · rw [isBreak] at same; cases same.2
      · rw [isBreak] at same; cases same.2
      · rw [none, ended]
        rfl
    · intro none
      rw [(List.append_eq_nil_iff.mp none).1]
      rfl
  constructor
  · intro inline
    refine ⟨text.mp inline.text, ?_⟩
    cases closes : t.closes with
    | true => exact Or.inl rfl
    | false => exact Or.inr (line.mp (inline.line closes))
  · rintro ⟨none, rest⟩
    refine ⟨text.mpr none, ?_, ?_⟩
    · intro key indent found
      rw [t.tag_eq, dropped, if_pos alone, none] at found
      exact Tag.ofBody_reference found
    · intro opens
      rcases rest with closes | ended
      · rw [opens] at closes; cases closes
      · exact line.mpr ended

end Stretch

namespace Stray
variable {source : List Char} {t : Stretch}

theorem lead_eq (stray : Stray source (reachOf earlier) t.span.start)
    (stands : Stands source earlier t ahead) :
    ∃ more, t.opening.lead = more ++ stray.mark :: stray.between := by
  have whole := stray.whole.symm.trans stands.whole
  rw [List.append_assoc (ahead ++ t.opening.lead)] at whole
  have same := (parts_of_size whole (stray.starts.trans stands.start_eq.symm)).1
  rcases stands.place.before with ⟨-, rfl, -⟩ | ⟨p, front, found, behind⟩
  · exact ⟨stray.before, same.symm⟩
  · have reach : size front ≤ size stray.before := by
      rw [behind.stop, ← reachOf_of_latest found]
      exact stray.reaches
    rw [behind.parts, List.append_assoc] at same
    obtain ⟨more, -, parts⟩ := append_of_size_le same.symm reach
    rcases List.append_eq_append_iff.mp parts with ⟨tail, rfl, rest⟩ | ⟨tail, skipped, rest⟩
    · exact ⟨tail, rest⟩
    · cases tail with
      | nil => exact ⟨[], by simpa using rest.symm⟩
      | cons c tail =>
        -- The mark would stand before the break that the tag before has taken.
        refine absurd ?_ stray.line
        have last : p.skipped.getLast? = some '\n' := by
          rcases behind.breaks stands.rest_ne_nil with none | ⟨taken, same⟩
          · rw [none] at skipped
            simp at skipped
          · simp [same]
        rw [skipped, getLast_append_of_full (List.cons_ne_nil c tail)] at last
        rw [rest]
        exact List.mem_append_left _ (List.mem_of_getLast? last)

theorem beginsLine (stray : Stray source (reachOf earlier) t.span.start)
    (stands : Stands source earlier t ahead) :
    t.scan.beginsLine t.opening = t.scan.afterDefinition := by
  obtain ⟨more, same⟩ := stray.lead_eq stands
  have noStart := stands.sound.opens.lineStart_of_visible same stray.visible stray.line
  have full : t.opening.lead.isEmpty = false := by rw [same]; simp
  simp [Scan.beginsLine, noStart, full]

theorem kept_ne_nil (stray : Stray source (reachOf earlier) t.span.start)
    (stands : Stands source earlier t ahead) : t.kept ≠ [] := by
  obtain ⟨more, same⟩ := stray.lead_eq stands
  intro none
  rw [t.kept_dropped, none, List.nil_append] at same
  have blank : isBlank stray.mark = true := by
    have member : stray.mark ∈ t.dropped := by rw [same]; simp
    unfold Stretch.dropped at member
    split at member
    · exact stands.sound.opens.indented _ member
    · cases member
  rw [stray.visible] at blank
  cases blank

end Stray

def EndsDefinition (earlier : List Stretch) : Prop :=
  ∃ p, earlier.getLast? = some p ∧ p.closes = true

theorem afterDefinition_iff (place : Place source earlier u ahead) :
    u.afterDefinition = true ↔ EndsDefinition earlier := by
  rcases place.before with ⟨rfl, -, fresh⟩ | ⟨p, front, found, behind⟩
  · simp [fresh, EndsDefinition]
  · rw [behind.carried]
    constructor
    · exact fun closes => ⟨p, found, closes⟩
    · rintro ⟨q, found', closes⟩
      rw [found] at found'
      cases found'
      exact closes

-- A tag that shares its line with what stands in front of it is left inline, unless the tag before
-- closed a definition. Then a tag other than an interpolation still takes the blanks on both of its
-- sides when nothing else follows on its line.
theorem inline_iff (begun : Scan.start? source pair = .ok s) (words : pair.Words)
    (split : s.stretches = earlier ++ t :: later)
    (stray : Stray source.toList (reachOf earlier) t.span.start) :
    t.run ∈ s.runs ∧ (t.IsInline ↔ (EndsDefinition earlier →
      t.isInterpolation = true ∨ lineEnd? t.closing.rest = none ∨
        t.opening.indent = [] ∧ (t.closes = true ∨ t.closing.rest = []))) := by
  obtain ⟨extent, ahead, stands⟩ := stands_of_stretches begun words split
  refine ⟨Scan.run_mem split (stray.kept_ne_nil stands), ?_⟩
  have begins := stray.beginsLine stands
  have carried := afterDefinition_iff stands.place
  cases after : t.scan.afterDefinition with
  | false =>
    rw [after] at begins carried
    have inline := Stretch.isInline_of_not_standalone (Stretch.not_standalone begins)
    exact ⟨fun _ ends => absurd (carried.mpr ends) (by simp), fun _ => inline⟩
  | true =>
    rw [after] at begins carried
    have ends := carried.mp rfl
    have alone : t.isStandalone = ((lineEnd? t.closing.rest).isSome && !t.isInterpolation) := by
      simp only [Stretch.isStandalone, Scan.isStandalone, Scan.isAlone, begins, Bool.true_and]
      rfl
    cases kind : t.isInterpolation with
    | true =>
      have inline := Stretch.isInline_of_not_standalone (by rw [alone, kind]; simp)
      exact ⟨fun _ _ => Or.inl rfl, fun _ => inline⟩
    | false =>
      cases tail : lineEnd? t.closing.rest with
      | none =>
        have inline := Stretch.isInline_of_not_standalone (by rw [alone, tail]; simp)
        exact ⟨fun _ _ => Or.inr (Or.inl rfl), fun _ => inline⟩
      | some found =>
        rw [Stretch.isInline_iff_of_standalone (by rw [alone, tail, kind]; rfl) (by simp [tail])]
        simp [ends]

namespace SharedLines

def source : String := "a \x7b\x7b<p\x7d\x7d\x7b\x7b/p\x7d\x7dx \x7b\x7b!c\x7d\x7d\ny"

def scan : Scan := .start source.toList .standard

def opens : Stretch where
  scan := scan
  opening := ⟨['a'], none, [' '], "<p\x7d\x7d\x7b\x7b/p\x7d\x7dx \x7b\x7b!c\x7d\x7d\ny".toList⟩
  closing := ⟨['<', 'p'], "\x7b\x7b/p\x7d\x7dx \x7b\x7b!c\x7d\x7d\ny".toList⟩

def ends : Stretch where
  scan := opens.next
  opening := ⟨[], none, [], "/p\x7d\x7dx \x7b\x7b!c\x7d\x7d\ny".toList⟩
  closing := ⟨['/', 'p'], "x \x7b\x7b!c\x7d\x7d\ny".toList⟩

def comment : Stretch where
  scan := ends.next
  opening := ⟨['x'], none, [' '], "!c\x7d\x7d\ny".toList⟩
  closing := ⟨['!', 'c'], ['\n', 'y']⟩

def opensStray : Stray source.toList (reachOf []) opens.span.start where
  before := []
  mark := 'a'
  between := [' ']
  after := "\x7b\x7b<p\x7d\x7d\x7b\x7b/p\x7d\x7dx \x7b\x7b!c\x7d\x7d\ny".toList
  whole := rfl
  reaches := by decide
  starts := rfl
  visible := rfl
  line := by decide

def commentStray : Stray source.toList (reachOf [opens, ends]) comment.span.start where
  before := "a \x7b\x7b<p\x7d\x7d\x7b\x7b/p\x7d\x7d".toList
  mark := 'x'
  between := [' ']
  after := "\x7b\x7b!c\x7d\x7d\ny".toList
  whole := rfl
  reaches := by decide
  starts := rfl
  visible := rfl
  line := by decide

theorem begun : Scan.start? source .standard = .ok scan := Scan.start_standard source

theorem scan_hasExtent : scan.active.HasExtent := Delimiters.standard_words.clear.hasExtent

theorem stretches_eq : scan.stretches = [opens, ends, comment] ∧ scan.last = comment.next := by
  have path : Scan.Reaches scan [opens, ends, comment] comment.next :=
    .tag rfl (.tag rfl (.tag rfl .here))
  exact path.stretches_eq scan_hasExtent rfl

theorem items_eq : scan.items = [.ok (.text "a "), .ok (.definitionStart "p"),
    .ok (.blockEnd "p" 8), .ok (.text "x"), .ok (.text "y")] := by
  rw [Scan.items_eq scan scan_hasExtent rfl, stretches_eq.1, stretches_eq.2]
  rfl

end SharedLines

theorem definition_inline : SharedLines.opens.run ∈ SharedLines.scan.runs ∧
    SharedLines.opens.IsInline := by
  have split : SharedLines.scan.stretches =
    [] ++ SharedLines.opens :: [SharedLines.ends, SharedLines.comment] := SharedLines.stretches_eq.1
  obtain ⟨member, inline⟩ := inline_iff SharedLines.begun Delimiters.standard_words split
    SharedLines.opensStray
  refine ⟨member, inline.mpr ?_⟩
  rintro ⟨p, none, -⟩
  cases none

-- The comment takes the blank and the line break beside it, though text stands before it.
theorem comment_not_inline : ∃ (s : Scan) (t : Stretch) (earlier later : List Stretch)
    (_ : Stray SharedLines.source.toList (reachOf earlier) t.span.start),
    Scan.start? SharedLines.source .standard = .ok s ∧
      s.items = [.ok (.text "a "), .ok (.definitionStart "p"), .ok (.blockEnd "p" 8),
        .ok (.text "x"), .ok (.text "y")] ∧
      s.stretches = earlier ++ t :: later ∧ ¬ t.IsInline := by
  have split : SharedLines.scan.stretches =
    [SharedLines.opens, SharedLines.ends] ++ SharedLines.comment :: [] := SharedLines.stretches_eq.1
  refine ⟨_, _, _, _, SharedLines.commentStray, SharedLines.begun, SharedLines.items_eq, split, ?_⟩
  intro inline
  exact absurd inline.text (by decide)

end Mustache
