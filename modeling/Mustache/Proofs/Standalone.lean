import Mustache.Proofs.Place

namespace Mustache
open Text

-- A line of the source with nothing but blanks beside the bytes of `span`.
structure LoneLine (source : List Char) (span : Tag.Span) where
  before : List Char
  indent : List Char
  inside : List Char
  trail : List Char
  newline : List Char
  after : List Char
  whole : source = before ++ indent ++ inside ++ trail ++ newline ++ after
  starts : size (before ++ indent) = span.start
  stops : size (before ++ indent ++ inside) = span.stop
  begins : before = [] ∨ before.getLast? = some '\n'
  indented : ∀ c ∈ indent, isBlank c = true
  trailing : ∀ c ∈ trail, isBlank c = true
  ends : IsBreak newline ∨ newline = [] ∧ after = []

namespace LoneLine

def start (line : LoneLine source span) : Nat := size line.before

def stop (line : LoneLine source span) : Nat :=
  size (line.before ++ line.indent ++ line.inside ++ line.trail ++ line.newline)

theorem bare (line : LoneLine source span) : Bare line.before := by
  intro c last
  rcases line.begins with empty | newline
  · rw [empty] at last; cases last
  · rw [newline] at last; cases last; rfl

variable {t : Stretch} {source : List Char}

theorem front (line : LoneLine source t.span) (stands : Stands source earlier t ahead) :
    line.before = ahead ++ t.opening.before ++ t.opening.lineBreak ∧
      line.indent = t.opening.indent := by
  have whole := line.whole.symm.trans stands.whole
  simp only [List.append_assoc] at whole
  rw [← List.append_assoc line.before, ← List.append_assoc ahead] at whole
  have same := (parts_of_size whole (line.starts.trans stands.start_eq.symm)).1
  refine Bare.parts (same.trans ?_) line.bare stands.bare line.indented stands.sound.opens.indented
  simp only [Opening.lead, List.append_assoc]

theorem back (line : LoneLine source t.span) (stands : Stands source earlier t ahead) :
    lineEnd? t.closing.rest = some (line.trail ++ line.newline, line.after) := by
  have same : line.trail ++ line.newline ++ line.after = t.closing.rest := by
    refine (parts_of_size ?_ (line.stops.trans stands.stop_eq.symm)).2
    rw [← stands.whole, ← List.append_assoc, ← List.append_assoc, ← line.whole]
  exact lineEnd_eq_some_iff.mpr ⟨same.symm, line.trail, line.newline, rfl, line.trailing, line.ends⟩

-- The line is indented, and the tag before it has taken the line break in front of it without being
-- the close of a definition.
def Severed (line : LoneLine source span) (earlier : List Stretch) : Prop :=
  line.indent ≠ [] ∧ ∃ p, earlier.getLast? = some p ∧ p.next.offset = line.start ∧ p.closes = false

theorem beginsLine_of_not_severed (line : LoneLine source t.span)
    (stands : Stands source earlier t ahead) (joined : ¬ line.Severed earlier) :
    t.scan.beginsLine t.opening = true := by
  obtain ⟨before, indent⟩ := line.front stands
  have fits := stands.sound.opens
  cases starts : t.opening.lineStart with
  | some newline => simp [Scan.beginsLine, starts]
  | none =>
    obtain ⟨-, noBreak, notStart⟩ := fits.goesOn starts
    rw [Opening.lineBreak, starts, Option.getD_none, List.append_nil] at before
    have near : t.opening.before = [] := by
      refine Classical.byContradiction fun full => ?_
      rcases line.begins with empty | last
      · rw [before] at empty; exact full (List.append_eq_nil_iff.mp empty).2
      · rw [before, getLast_append_of_full full] at last
        exact noBreak last
    rw [near, List.append_nil] at before
    rcases stands.place.before with ⟨-, rfl, -⟩ | ⟨p, front, found, behind⟩
    · have reached := stands.place.reached
      exact absurd near (notStart (by simpa using reached.symm))
    · by_cases plain : line.indent = []
      · rw [indent] at plain
        simp [Scan.beginsLine, Opening.lead, Opening.lineBreak, starts, near, plain]
      · have offset : p.next.offset = line.start := by
          rw [start, before, stands.place.reached, behind.offset]
        cases closes : p.closes with
        | true => simp [Scan.beginsLine, behind.carried, closes]
        | false => exact absurd ⟨plain, p, found, offset, closes⟩ joined

theorem not_beginsLine_of_severed (line : LoneLine source t.span)
    (stands : Stands source earlier t ahead) (severed : line.Severed earlier) :
    t.scan.beginsLine t.opening = false ∧ line.start = t.scan.offset := by
  obtain ⟨indented, p, found, offset, closes⟩ := severed
  obtain ⟨before, indent⟩ := line.front stands
  rcases stands.place.before with ⟨rfl, -⟩ | ⟨q, front, found', behind⟩
  · cases found
  · rw [found] at found'
    cases found'
    have reached : line.start = t.scan.offset := by rw [← offset, behind.offset]
    have near : t.opening.before ++ t.opening.lineBreak = [] := by
      have sizes : size (ahead ++ (t.opening.before ++ t.opening.lineBreak)) = size ahead := by
        rw [← List.append_assoc, ← before, stands.place.reached]; exact reached
      have length := length_le_size (t.opening.before ++ t.opening.lineBreak)
      rw [size_append] at sizes
      exact List.eq_nil_of_length_eq_zero (by omega)
    obtain ⟨near, noBreak⟩ := List.append_eq_nil_iff.mp near
    refine ⟨?_, reached⟩
    have noStart : t.opening.lineStart = none := by
      cases starts : t.opening.lineStart with
      | none => rfl
      | some newline =>
        rw [Opening.lineBreak, starts, Option.getD_some] at noBreak
        subst noBreak
        rcases stands.sound.opens.begins [] starts with (isBreak | isBreak) | ⟨-, -, start⟩
        · cases isBreak
        · cases isBreak
        · have stop := behind.stop
          obtain ⟨lead, c, rfl, -⟩ := behind.inked
          have positive := c.utf8Size_pos
          have zero : t.scan.offset = 0 := by simpa using start
          rw [behind.offset, p.next_offset, ← stop, size_append, size_cons] at zero
          omega
    rw [indent] at indented
    simp [Scan.beginsLine, behind.carried, closes, noStart, Opening.lead, near, noBreak, indented]

theorem start_lt_stop (line : LoneLine source span) (indented : line.indent ≠ []) :
    line.start < line.stop := by
  have length := length_le_size line.indent
  have positive := List.length_pos_iff.mpr indented
  simp only [start, stop, size_append]
  omega

theorem dropped (line : LoneLine source t.span) (stands : Stands source earlier t ahead)
    (begins : t.scan.beginsLine t.opening = true) (plain : t.isInterpolation = false) :
    t.run.stop = line.start ∧ t.next.offset = line.stop := by
  have rest := line.back stands
  have alone : t.isStandalone = true := by
    unfold Stretch.isInterpolation Stretch.tag at plain
    simp [Stretch.isStandalone, Scan.isStandalone, Scan.isAlone, begins, rest, plain]
  obtain ⟨before, indent⟩ := line.front stands
  constructor
  · rw [start, before, Run.stop, Stretch.run, Stretch.kept, if_pos alone, ← stands.place.reached]
    simp only [size_append]
    omega
  · have skipped : t.skipped = line.trail ++ line.newline := by
      simp only [Stretch.skipped, alone, Bool.true_or, cutLineEnd, if_true, rest, Option.getD_some]
    rw [t.next_offset, skipped, ← line.stops, stop]
    simp only [size_append]
    omega

end LoneLine

-- A tag that is alone on its line and no interpolation takes the line with it, unless the line is
-- severed from the break in front of it.
theorem lone_line_dropped_iff (begun : Scan.start? source pair = .ok s) (words : pair.Words)
    (split : s.stretches = earlier ++ t :: later) (plain : t.isInterpolation = false)
    (line : LoneLine source.toList t.span) :
    (∀ run ∈ s.runs, run.Avoids line.start line.stop) ↔ ¬ line.Severed earlier := by
  obtain ⟨extent, ahead, stands⟩ := stands_of_stretches begun words split
  constructor
  · intro avoided severed
    obtain ⟨begins, reached⟩ := line.not_beginsLine_of_severed stands severed
    have kept := Stretch.kept_of_not_standalone (Stretch.not_standalone begins)
    have wide := line.start_lt_stop severed.1
    have full : t.kept ≠ [] := by
      rw [kept, Opening.lead, ← (line.front stands).2]
      simp [severed.1]
    have positive := List.length_pos_iff.mpr full
    have length := length_le_size t.kept
    rcases avoided t.run (Scan.run_mem split full) with behind | before
    · simp only [Run.stop, Stretch.run] at behind
      omega
    · simp only [Stretch.run] at before
      omega
  · intro joined run member
    have begins := line.beginsLine_of_not_severed stands joined
    obtain ⟨front, back⟩ := line.dropped stands begins plain
    rcases Scan.runs_around extent split member with before | rfl | behind
    · refine Or.inl (Nat.le_trans before (Nat.le_trans ?_ (Nat.le_of_eq front)))
      simp only [Run.stop, Stretch.run]
      omega
    · exact Or.inl (Nat.le_of_eq front)
    · exact Or.inr (back ▸ behind)

namespace CommentLines

def source : String :=
  "\x7b\x7b!a\x7d\x7d\n\x7b\x7b!b\x7d\x7d\n \x7b\x7b!c\x7d\x7d\n"

def scan : Scan := .start source.toList .standard

def first : Stretch where
  scan := scan
  opening := ⟨[], some [], [], "!a\x7d\x7d\n\x7b\x7b!b\x7d\x7d\n \x7b\x7b!c\x7d\x7d\n".toList⟩
  closing := ⟨['!', 'a'], "\n\x7b\x7b!b\x7d\x7d\n \x7b\x7b!c\x7d\x7d\n".toList⟩

def second : Stretch where
  scan := first.next
  opening := ⟨[], none, [], "!b\x7d\x7d\n \x7b\x7b!c\x7d\x7d\n".toList⟩
  closing := ⟨['!', 'b'], "\n \x7b\x7b!c\x7d\x7d\n".toList⟩

def third : Stretch where
  scan := second.next
  opening := ⟨[], none, [' '], "!c\x7d\x7d\n".toList⟩
  closing := ⟨['!', 'c'], ['\n']⟩

def secondLine : LoneLine source.toList second.span where
  before := "\x7b\x7b!a\x7d\x7d\n".toList
  indent := []
  inside := "\x7b\x7b!b\x7d\x7d".toList
  trail := []
  newline := ['\n']
  after := " \x7b\x7b!c\x7d\x7d\n".toList
  whole := rfl
  starts := rfl
  stops := rfl
  begins := Or.inr rfl
  indented := by simp
  trailing := by simp
  ends := Or.inl (Or.inl rfl)

def thirdLine : LoneLine source.toList third.span where
  before := "\x7b\x7b!a\x7d\x7d\n\x7b\x7b!b\x7d\x7d\n".toList
  indent := [' ']
  inside := "\x7b\x7b!c\x7d\x7d".toList
  trail := []
  newline := ['\n']
  after := []
  whole := rfl
  starts := rfl
  stops := rfl
  begins := Or.inr rfl
  indented := by simp [isBlank]
  trailing := by simp
  ends := Or.inl (Or.inl rfl)

theorem begun : Scan.start? source .standard = .ok scan := Scan.start_standard source

theorem scan_hasExtent : scan.active.HasExtent := Delimiters.standard_words.clear.hasExtent

theorem stretches_eq : scan.stretches = [first, second, third] ∧ scan.last = third.next := by
  have path : Scan.Reaches scan [first, second, third] third.next := .tag rfl (.tag rfl (.tag rfl .here))
  exact path.stretches_eq scan_hasExtent rfl

theorem items_eq : scan.items = [.ok (.text " "), .ok (.text "\n")] := by
  rw [Scan.items_eq scan scan_hasExtent rfl, stretches_eq.1, stretches_eq.2]
  rfl

end CommentLines

theorem lone_line_dropped_behind_line :
    CommentLines.scan.stretches =
      [CommentLines.first] ++ CommentLines.second :: [CommentLines.third] ∧
    ∀ run ∈ CommentLines.scan.runs,
      run.Avoids CommentLines.secondLine.start CommentLines.secondLine.stop := by
  have split : CommentLines.scan.stretches =
    [CommentLines.first] ++ CommentLines.second :: [CommentLines.third] := CommentLines.stretches_eq.1
  have joined : ¬ CommentLines.secondLine.Severed [CommentLines.first] := fun severed => severed.1 rfl
  exact ⟨split, (lone_line_dropped_iff CommentLines.begun Delimiters.standard_words split rfl
    CommentLines.secondLine).mpr joined⟩

-- The line behind a dropped line is kept when it is indented.
theorem indented_line_kept : ∃ (s : Scan) (t : Stretch) (earlier later : List Stretch)
    (line : LoneLine CommentLines.source.toList t.span),
    Scan.start? CommentLines.source .standard = .ok s ∧
      s.items = [.ok (.text " "), .ok (.text "\n")] ∧ s.stretches = earlier ++ t :: later ∧
      t.isInterpolation = false ∧ ¬ ∀ run ∈ s.runs, run.Avoids line.start line.stop := by
  have split : CommentLines.scan.stretches =
    [CommentLines.first, CommentLines.second] ++ CommentLines.third :: [] := CommentLines.stretches_eq.1
  refine ⟨_, _, _, _, CommentLines.thirdLine, CommentLines.begun, CommentLines.items_eq, split, rfl, ?_⟩
  intro avoided
  rcases avoided _ (Scan.run_mem split (by decide)) with before | behind
  · exact absurd before (by decide)
  · exact absurd behind (by decide)

end Mustache
