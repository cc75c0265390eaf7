import Mustache.Proofs.Crlf
import Mustache.Proofs.Stretch

namespace Mustache
open Text

theorem Delimiters.IsWord.unbroken (word : IsWord delimiter) : Unbroken delimiter.toList := by
  intro c member
  have inked := word.2 c member
  constructor
  · rintro rfl; cases inked
  · rintro rfl; cases inked

theorem Text.Unbroken.crlf_eq (unbroken : Unbroken word) : crlf word = word :=
  crlf_of_notMem fun member => (unbroken '\n' member).1 rfl

theorem Text.strip_between (unbroken : Unbroken word) (missed : strip? word ('\n' :: a) = none)
    (b : List Char) : strip? word ('\n' :: b) = none := by
  cases word with
  | nil => cases missed
  | cons w word => simp [strip?, (unbroken w List.mem_cons_self).1]

namespace Opening
variable {delimiter text : List Char}

def crlf (o : Opening) : Opening := ⟨Text.crlf o.before, o.lineStart.map Text.crlf, o.indent, Text.crlf o.rest⟩

theorem indented_of_visible (visible : isBlank c = false) :
    indented? delimiter (c :: text) = (strip? delimiter (c :: text)).map ([], ·) := by
  simp only [indented?, visible, Bool.false_eq_true, if_false]

theorem indented_crlf (unbroken : Unbroken delimiter) (text : List Char) :
    indented? delimiter (Text.crlf text) =
      (indented? delimiter text).map fun found => (found.1, Text.crlf found.2) := by
  induction text with
  | nil =>
    have stripped := strip_crlf unbroken []
    rw [crlf_nil] at stripped ⊢
    simp only [indented?]
    cases shape : strip? delimiter [] with
    | none => rfl
    | some rest =>
      rw [shape, Option.map_some, Option.some.injEq] at stripped
      simp [← stripped]
  | cons c text ih =>
    have stripped := strip_crlf unbroken (c :: text)
    by_cases feed : c = '\n'
    · subst feed
      rw [crlf_break] at stripped ⊢
      rw [indented_of_visible (by decide), indented_of_visible (by decide), stripped, Option.map_map,
        Option.map_map]
      rfl
    · rw [crlf_cons feed] at stripped ⊢
      cases blank : isBlank c with
      | false =>
        rw [indented_of_visible blank, indented_of_visible blank, stripped, Option.map_map,
          Option.map_map]
        rfl
      | true =>
        simp only [indented?, blank, if_true, ih, stripped]
        cases indented? delimiter text with
        | none =>
          simp only [Option.map_none, Option.map_map]
          rfl
        | some found => rfl

theorem afterBreak_crlf (unbroken : Unbroken delimiter) (bare : '\r' ∉ text) :
    afterBreak? delimiter (Text.crlf text) = (afterBreak? delimiter text).map crlf := by
  unfold afterBreak?
  rw [lineBreak_crlf bare]
  cases lineBreak? text with
  | none => rfl
  | some found =>
    simp only [Option.map_some, indented_crlf unbroken]
    cases indented? delimiter found.2 <;> rfl

theorem inLine_crlf (unbroken : Unbroken delimiter) (text : List Char) :
    inLine? delimiter (Text.crlf text) = (inLine? delimiter text).map crlf := by
  unfold inLine?
  rw [indented_crlf unbroken]
  cases indented? delimiter text <;> rfl

theorem atStart_crlf (unbroken : Unbroken delimiter) (text : List Char) :
    atStart? delimiter (Text.crlf text) = (atStart? delimiter text).map crlf := by
  unfold atStart?
  rw [indented_crlf unbroken]
  cases indented? delimiter text <;> rfl

theorem here_crlf (unbroken : Unbroken delimiter) (bare : '\r' ∉ text) :
    here? delimiter (Text.crlf text) = (here? delimiter text).map crlf := by
  unfold here?
  rw [afterBreak_crlf unbroken bare, inLine_crlf unbroken]
  cases afterBreak? delimiter text <;> rfl

theorem here_between (unbroken : Unbroken delimiter) (missed : here? delimiter ('\n' :: text) = none) :
    here? delimiter ('\n' :: Text.crlf text) = none := by
  have plain : indented? delimiter text = none := by
    cases found : indented? delimiter text with
    | none => rfl
    | some answer => simp [here?, afterBreak?, lineBreak?, found] at missed
  have stripped : strip? delimiter ('\n' :: text) = none := by
    cases found : strip? delimiter ('\n' :: text) with
    | none => rfl
    | some rest =>
      simp [here?, afterBreak?, lineBreak?, plain, inLine?, indented?, found,
        show isBlank '\n' = false by decide] at missed
  simp [here?, afterBreak?, lineBreak?, inLine?, indented?, indented_crlf unbroken, plain,
    strip_between unbroken stripped, show isBlank '\n' = false by decide]

theorem find_crlf (unbroken : Unbroken delimiter) (bare : '\r' ∉ text) (sourceStart : Bool) :
    find? delimiter sourceStart (Text.crlf text) = (find? delimiter sourceStart text).map crlf := by
  have searched : first (here? delimiter) (Text.crlf text) = _ :=
    first_crlf bare (fun _ => here_crlf unbroken) fun _ _ => here_between unbroken
  unfold find?
  rw [searched, atStart_crlf unbroken]
  cases sourceStart with
  | false =>
    simp only [Bool.false_eq_true, if_false]
    cases first (here? delimiter) text <;> rfl
  | true =>
    simp only [if_true]
    cases atStart? delimiter text with
    | some o => rfl
    | none =>
      simp only [Option.map_none]
      cases first (here? delimiter) text <;> rfl

theorem lead_crlf {o : Opening} (blank : ∀ c ∈ o.indent, isBlank c = true) :
    o.crlf.lead = Text.crlf o.lead := by
  simp only [lead, lineBreak, crlf, crlf_append, crlf_of_blank blank]
  cases o.lineStart <;> rfl

end Opening

namespace Closing
variable {delimiter text : List Char}

def crlf (c : Closing) : Closing := ⟨Text.crlf c.body, Text.crlf c.rest⟩

theorem braces_crlf (text : List Char) : braces? (Text.crlf text) = (braces? text).map crlf := by
  by_cases opens : ∃ rest, text = '}' :: '}' :: rest
  · obtain ⟨rest, rfl⟩ := opens
    obtain ⟨n, run⟩ := takeWhile_brace rest
    have kept : Text.crlf (rest.takeWhile (· = '}')) = rest.takeWhile (· = '}') := by
      rw [run]
      exact crlf_of_notMem fun member => absurd (List.eq_of_mem_replicate member) (by decide)
    rw [crlf_cons (by decide), crlf_cons (by decide)]
    simp only [braces?, crlf, Option.map_some, kept,
      takeWhile_crlf (p := (· = '}')) rfl rfl rest, dropWhile_crlf (p := (· = '}')) rfl rest]
  · have missed {text : List Char} (other : ¬ ∃ rest, text = '}' :: '}' :: rest) :
        braces? text = none := by
      unfold braces?
      split
      · exact absurd ⟨_, rfl⟩ other
      · rfl
    rw [missed opens, missed]
    · rfl
    · rintro ⟨rest, same⟩
      -- Two braces at the front of the converted text stand in the text as well.
      rcases text with _ | ⟨c, _ | ⟨d, text⟩⟩
      · cases same
      · by_cases feed : c = '\n'
        · subst feed; cases same
        · rw [crlf_cons feed] at same; cases same
      · by_cases feed : c = '\n'
        · subst feed; cases same
        · rw [crlf_cons feed, List.cons.injEq] at same
          by_cases feed' : d = '\n'
          · subst feed'; cases same.2
          · rw [crlf_cons feed', List.cons.injEq] at same
            exact opens ⟨text, by rw [same.1, same.2.1]⟩

theorem here_crlf (unbroken : Unbroken delimiter) (text : List Char) :
    here? delimiter (Text.crlf text) = (here? delimiter text).map crlf := by
  unfold here?
  split
  · exact braces_crlf text
  · simp only [plain?, strip_crlf unbroken, Option.map_map]
    rfl

theorem here_between (unbroken : Unbroken delimiter) (missed : here? delimiter ('\n' :: text) = none)
    (other : List Char) : here? delimiter ('\n' :: other) = none := by
  unfold here? at missed ⊢
  split
  · rfl
  · rename_i plain
    rw [if_neg plain, plain?, Option.map_eq_none_iff] at missed
    rw [plain?, strip_between unbroken missed, Option.map_none]

theorem find_crlf (unbroken : Unbroken delimiter) (bare : '\r' ∉ text) :
    find? delimiter (Text.crlf text) = (find? delimiter text).map crlf := by
  have searched : first (here? delimiter) (Text.crlf text) = _ :=
    first_crlf bare (fun text _ => here_crlf unbroken text) fun _ _ missed => here_between unbroken missed _
  unfold find?
  rw [searched]
  cases first (here? delimiter) text with
  | none => rfl
  | some found => simp [crlf]

end Closing

-- Where an offset of a source lies in the converted source: behind the converted characters before
-- it. What is no offset between two characters stays none.
def crlfOffset (source : List Char) (offset : Nat) : Nat :=
  match cut? offset source with
  | some (before, _) => size (crlf before)
  | none => size (crlf source) + 1

theorem crlfOffset_eq (whole : source = before ++ after) :
    crlfOffset source (size before) = size (crlf before) := by
  have found : cut? (size before) source = some (before, after) := cut_eq_some_iff.mpr ⟨whole, rfl⟩
  rw [crlfOffset, found]

namespace Delimiters

theorem mem_dropWhile {p : Char → Bool} {text : List Char} (kept : p c = false) (member : c ∈ text) :
    c ∈ text.dropWhile p := by
  rw [← List.takeWhile_append_dropWhile (p := p) (l := text), List.mem_append] at member
  rcases member with member | member
  · rw [List.all_eq_true.mp List.all_takeWhile c member] at kept
    cases kept
  · exact member

theorem ofWords_of_mem (member : '\n' ∈ text) : ofWords? text = none := by
  have left : '\n' ∈ (((((text.dropWhile isPadding).dropWhile (!isSpace ·)).dropWhile
      isPadding).dropWhile (!isSpace ·)).dropWhile isPadding) :=
    mem_dropWhile rfl (mem_dropWhile rfl (mem_dropWhile rfl (mem_dropWhile rfl (mem_dropWhile rfl member))))
  unfold ofWords?
  dsimp only
  rw [if_pos]
  simp [List.ne_nil_of_mem left]

theorem ofChange_of_mem (member : '\n' ∈ body) : ofChange? body = none := by
  unfold ofChange?
  split
  · rename_i rest
    split
    · rename_i kept reversed
      apply ofWords_of_mem
      have inside : '\n' ∈ rest.reverse := by simpa using member
      rw [reversed] at inside
      simpa using inside
    · rfl
  · rfl

theorem ofChange_crlf (body : List Char) : ofChange? (crlf body) = ofChange? body := by
  by_cases member : '\n' ∈ body
  · rw [ofChange_of_mem member, ofChange_of_mem (mem_crlf.mpr member)]
  · rw [crlf_of_notMem member]

end Delimiters

namespace Tag

def crlf (source : List Char) : Tag → Tag
  | .text run => .text (crlfText run)
  | .interpolation key escaped => .interpolation (crlfText key) escaped
  | .sectionStart inverted key start pair =>
    .sectionStart inverted (crlfText key) (crlfOffset source start) pair
  | .definitionStart key => .definitionStart (crlfText key)
  | .reference key indent => .reference (crlfText key) indent
  | .blockEnd key stop => .blockEnd (crlfText key) (crlfOffset source stop)
  | .delimiterChange pair => .delimiterChange pair

theorem keyOf_crlf (text : List Char) : keyOf (Text.crlf text) = crlfText (keyOf text) := by
  rw [keyOf, trim_crlf, keyOf, crlfText_ofList]

theorem braced_of_mem (member : '\n' ∈ body) : braced? body = none := by
  unfold braced?
  split
  · rename_i rest
    have inside : '\n' ∈ rest := by simpa using member
    split
    · simp [inside]
    · rfl
  · rfl

theorem braced_crlf (body : List Char) : braced? (Text.crlf body) = (braced? body).map Text.crlf := by
  by_cases member : '\n' ∈ body
  · rw [braced_of_mem member, braced_of_mem (mem_crlf.mpr member)]
    rfl
  · rw [crlf_of_notMem member]
    cases found : braced? body with
    | none => rfl
    | some inner =>
      have within : '\n' ∉ inner := by
        unfold braced? at found
        split at found
        · rename_i rest
          split at found
          · rename_i kept reversed
            split at found
            · cases found
            · cases Option.some.inj found
              intro inside
              have deeper : '\n' ∈ rest.reverse := by rw [reversed]; simpa using inside
              exact member (by simpa using deeper)
          · cases found
        · cases found
      rw [Option.map_some, crlf_of_notMem within]

theorem ofBody_crlf (active : Delimiters) (span : Span) (indent body source : List Char) :
    ofBody active ⟨crlfOffset source span.start, crlfOffset source span.stop⟩ indent (Text.crlf body) =
      (ofBody active span indent body).map (crlf source) := by
  cases body with
  | nil => rfl
  | cons c rest =>
    have braced := braced_crlf (c :: rest)
    have change := Delimiters.ofChange_crlf (c :: rest)
    have plain := keyOf_crlf (c :: rest)
    have key := keyOf_crlf rest
    by_cases feed : c = '\n'
    · subst feed
      rw [crlf_break] at braced change plain ⊢
      simp only [ofBody]
      rw [braced, plain]
      cases active.isStandard <;> cases braced? ('\n' :: rest) <;> simp [crlf, keyOf_crlf]
    · rw [crlf_cons feed] at braced change plain ⊢
      simp only [ofBody]
      rw [braced, plain, change, key]
      split
      case h_8 =>
        cases Delimiters.ofChange? ('=' :: rest) with
        | none => rfl
        | some pair => cases usable : pair.isUsable <;> simp [usable, crlf]
      case h_9 =>
        cases active.isStandard <;> cases braced? (c :: rest) <;> simp [crlf, keyOf_crlf]
      all_goals rfl

end Tag

def ParseError.crlf (source : List Char) : ParseError → ParseError
  | .mismatchedEnd expected found => .mismatchedEnd (crlfText expected) (crlfText found)
  | .unexpectedEnd key => .unexpectedEnd (crlfText key)
  | .unterminatedBlocks keys => .unterminatedBlocks (keys.map crlfText)
  | .unclosedTag offset => .unclosedTag (crlfOffset source offset)
  | .duplicatePartial key => .duplicatePartial (crlfText key)
  | .unusableDelimiters => .unusableDelimiters

def crlfResult (source : List Char) (f : α → β) (result : Except ParseError α) : Except ParseError β :=
  (result.map f).mapError (ParseError.crlf source)

def crlfItem (source : List Char) : Item → Item := crlfResult source (Tag.crlf source)

theorem crlfItem_ok (source : List Char) (tag : Tag) :
    crlfItem source (.ok tag) = .ok (tag.crlf source) := rfl

theorem yielded_crlf (source text : List Char) (tag : Option Tag) :
    Scan.yielded (crlf text) (tag.map (Tag.crlf source)) =
      (Scan.yielded text tag).map (crlfItem source) := by
  unfold Scan.yielded
  rw [isEmpty_crlf]
  cases text.isEmpty <;> cases tag <;> simp [crlfItem_ok, Tag.crlf]

-- A scan `y` of the converted source that is as far as the scan `x` of the source.
structure Converts (source : List Char) (x y : Scan) : Prop where
  rest : y.rest = crlf x.rest
  bare : '\r' ∉ x.rest
  active : y.active = x.active
  blocks : y.blocks = x.blocks
  afterDefinition : y.afterDefinition = x.afterDefinition
  place : ∃ ahead, source = ahead ++ x.rest ∧ size ahead = x.offset ∧ size (crlf ahead) = y.offset

namespace Converts

theorem start (source : List Char) (pair : Delimiters) (bare : '\r' ∉ source) :
    Converts source (.start source pair) (.start (crlf source) pair) :=
  ⟨rfl, bare, rfl, rfl, rfl, [], rfl, rfl, rfl⟩

theorem offset_eq_zero (converts : Converts source x y) : y.offset = 0 ↔ x.offset = 0 := by
  obtain ⟨ahead, -, here, there⟩ := converts.place
  rw [← here, ← there, size_eq_zero, size_eq_zero, crlf_eq_nil]

theorem bare_behind (opened : Opening.find? delimiter atStart text = some o) (bare : '\r' ∉ text) :
    '\r' ∉ o.rest := by
  rw [Opening.find_append opened] at bare
  exact fun member => bare (List.mem_append_right _ member)

theorem offset_ahead (converts : Converts source x y) (parts : x.rest = taken ++ after) :
    crlfOffset source (x.offset + size taken) = y.offset + size (crlf taken) := by
  obtain ⟨ahead, whole, here, there⟩ := converts.place
  rw [← here, ← there, ← size_append, ← size_append, ← crlf_append]
  exact crlfOffset_eq (by rw [whole, parts, List.append_assoc])

theorem stretch (converts : Converts source x y) (words : x.active.Words) :
    y.stretch? = x.stretch?.map fun t => ⟨y, t.opening.crlf, t.closing.crlf⟩ := by
  have offset := converts.offset_eq_zero
  obtain ⟨rest, bare, active, -⟩ := converts
  unfold Scan.stretch?
  rw [rest, isEmpty_crlf, active, Opening.find_crlf words.opening.unbroken bare]
  simp only [offset]
  split
  · rfl
  · cases opened : Opening.find? x.active.opening.toList (x.offset = 0) x.rest with
    | none => rfl
    | some o =>
      simp only [Option.map_some, Opening.crlf,
        Closing.find_crlf words.closing.unbroken (bare_behind opened bare)]
      cases Closing.find? x.active.closing.toList o.rest <;> rfl

end Converts

theorem Tag.isInterpolation_crlf (tag : Option Tag) (source : List Char) :
    (tag.map (crlf source)).any isInterpolation = tag.any isInterpolation := by
  rcases tag with _ | ⟨_ | _ | _⟩ <;> rfl

theorem closesDefinition_crlf (tag : Option Tag) (source : List Char) (blocks : List BlockKind) :
    closesDefinition (tag.map (Tag.crlf source)) blocks = closesDefinition tag blocks := by
  rcases tag with _ | ⟨_ | _ | _⟩ <;> rfl

theorem blocksAfter_crlf (tag : Option Tag) (source : List Char) (blocks : List BlockKind) :
    blocksAfter (tag.map (Tag.crlf source)) blocks = blocksAfter tag blocks := by
  rcases tag with _ | ⟨_ | _ | _⟩ <;> rfl

theorem activeAfter_crlf (tag : Option Tag) (source : List Char) (blocks : List BlockKind)
    (active : Delimiters) :
    activeAfter (tag.map (Tag.crlf source)) blocks active = activeAfter tag blocks active := by
  unfold activeAfter
  rw [closesDefinition_crlf]
  rcases tag with _ | ⟨_ | _ | _⟩ <;> rfl

structure StretchConverts (source : List Char) (t u : Stretch) : Prop where
  scan : Converts source t.scan u.scan
  words : t.scan.active.Words
  sound : t.Sound
  opening : u.opening = t.opening.crlf
  closing : u.closing = t.closing.crlf

namespace StretchConverts
variable {source : List Char} {t u : Stretch}

theorem tag_crlf (converts : StretchConverts source t u) : crlf (t.scan.active.opening.toList ++
    t.closing.body ++ t.scan.active.closing.toList) =
      u.scan.active.opening.toList ++ u.closing.body ++ u.scan.active.closing.toList := by
  rw [converts.scan.active, converts.closing, crlf_append, crlf_append,
    converts.words.opening.unbroken.crlf_eq, converts.words.closing.unbroken.crlf_eq]
  rfl

theorem lead (converts : StretchConverts source t u) : u.opening.lead = crlf t.opening.lead := by
  rw [converts.opening]
  exact Opening.lead_crlf converts.sound.opens.indented

theorem bare (converts : StretchConverts source t u) : '\r' ∉ t.closing.rest := fun member =>
  converts.scan.bare (by
    rw [converts.sound.whole]
    exact List.mem_append_right _ member)

theorem span (converts : StretchConverts source t u) :
    u.span = ⟨crlfOffset source t.span.start, crlfOffset source t.span.stop⟩ := by
  have whole := converts.sound.whole
  have start : crlfOffset source t.span.start = u.span.start := by
    rw [t.span_start, u.span_start, converts.lead]
    exact converts.scan.offset_ahead (whole.trans (List.append_assoc _ _ _))
  have stop : crlfOffset source t.span.stop = u.span.stop := by
    rw [t.span_stop, u.span_stop, t.span_start, u.span_start, ← converts.tag_crlf, converts.lead,
      Nat.add_assoc, Nat.add_assoc, ← size_append, ← size_append, ← crlf_append]
    exact converts.scan.offset_ahead whole
  rw [start, stop]

theorem isAlone (converts : StretchConverts source t u) :
    u.scan.isAlone u.opening u.closing = t.scan.isAlone t.opening t.closing := by
  have begins : u.scan.beginsLine u.opening = t.scan.beginsLine t.opening := by
    rw [Scan.beginsLine, Scan.beginsLine, converts.lead, isEmpty_crlf,
      converts.scan.afterDefinition, converts.opening, Opening.crlf, Option.isSome_map]
  rw [Scan.isAlone, Scan.isAlone, begins, converts.closing, Closing.crlf, lineEnd_crlf converts.bare,
    Option.isSome_map]

theorem tag (converts : StretchConverts source t u) : u.tag = t.tag.map (Tag.crlf source) := by
  have same := converts.span
  rw [Stretch.span] at same
  rw [Stretch.tag, Stretch.tag, Scan.tagOf, Scan.tagOf, converts.isAlone, same, converts.scan.active,
    converts.opening, converts.closing]
  exact Tag.ofBody_crlf _ _ _ _ _

theorem isStandalone (converts : StretchConverts source t u) : u.isStandalone = t.isStandalone := by
  have same := converts.tag
  rw [Stretch.tag, Stretch.tag] at same
  rw [Stretch.isStandalone, Stretch.isStandalone, Scan.isStandalone, Scan.isStandalone,
    converts.isAlone, same, Tag.isInterpolation_crlf]

theorem closes (converts : StretchConverts source t u) : u.closes = t.closes := by
  rw [Stretch.closes, Stretch.closes, converts.tag, closesDefinition_crlf, converts.scan.blocks]

theorem kept (converts : StretchConverts source t u) : u.kept = crlf t.kept := by
  rw [Stretch.kept, Stretch.kept, converts.isStandalone, converts.lead, converts.opening]
  split
  · rw [crlf_append, Opening.crlf, Opening.lineBreak, Opening.lineBreak]
    cases t.opening.lineStart <;> rfl
  · rfl

theorem skipped (converts : StretchConverts source t u) :
    u.skipped = crlf t.skipped ∧ u.next.rest = crlf t.next.rest := by
  have cut := cutLineEnd_crlf converts.bare (t.isStandalone || t.closes)
  rw [Stretch.skipped, Stretch.skipped, Stretch.next, Stretch.next, converts.isStandalone,
    converts.closes, converts.closing, Closing.crlf]
  exact ⟨congrArg Prod.fst cut, congrArg Prod.snd cut⟩

theorem next (converts : StretchConverts source t u) : Converts source t.next u.next := by
  obtain ⟨skipped, rest⟩ := converts.skipped
  obtain ⟨taken, parts, moved⟩ := converts.sound.next_rest
  refine ⟨rest, fun member => ?_, ?_, ?_, converts.closes, ?_⟩
  · exact converts.bare (by rw [t.skipped_rest]; exact List.mem_append_right _ member)
  · rw [Stretch.next, Stretch.next, converts.tag, converts.scan.blocks, converts.scan.active]
    exact activeAfter_crlf _ _ _ _
  · rw [Stretch.next, Stretch.next, converts.tag, converts.scan.blocks]
    exact blocksAfter_crlf _ _ _
  · obtain ⟨ahead, whole, here, there⟩ := converts.scan.place
    refine ⟨ahead ++ taken, ?_, ?_, ?_⟩
    · rw [whole, parts, List.append_assoc]
    · rw [size_append, here, moved]
    · have front : t.scan.rest = t.opening.lead ++ (t.scan.active.opening.toList ++ t.closing.body ++
          t.scan.active.closing.toList) ++ t.skipped ++ t.next.rest := by
        rw [converts.sound.whole, t.skipped_rest]
        simp only [List.append_assoc]
      have same : taken = t.opening.lead ++ (t.scan.active.opening.toList ++ t.closing.body ++
          t.scan.active.closing.toList) ++ t.skipped :=
        List.append_cancel_right (parts.symm.trans front)
      rw [same, u.next_offset, u.span_stop, u.span_start, converts.lead, ← converts.tag_crlf, skipped,
        ← there]
      simp only [crlf_append, size_append, Nat.add_assoc]

end StretchConverts

namespace Converts

theorem step (converts : Converts source x y) (words : x.active.Words) (met : x.stretch? = some t) :
    ∃ u, y.stretch? = some u ∧ StretchConverts source t u := by
  obtain ⟨rfl, sound, -⟩ := Scan.stretch_sound met
  have found := converts.stretch words
  rw [met] at found
  exact ⟨_, found, converts, words, sound, rfl, rfl⟩

theorem ending (converts : Converts source x y) (words : x.active.Words) :
    y.ending = x.ending.map (crlfItem source) := by
  have offset := converts.offset_eq_zero
  have ahead (taken after : List Char) (parts : x.rest = taken ++ after) :
      crlfOffset source (x.offset + size taken) = y.offset + size (crlf taken) :=
    converts.offset_ahead parts
  obtain ⟨rest, bare, active, -⟩ := converts
  unfold Scan.ending Scan.round
  rw [rest, isEmpty_crlf, active, Opening.find_crlf words.opening.unbroken bare]
  simp only [offset]
  cases x.rest.isEmpty with
  | true => rfl
  | false =>
    simp only [Bool.false_eq_true, if_false]
    cases opened : Opening.find? x.active.opening.toList (x.offset = 0) x.rest with
    | none => simp [crlfItem_ok, Tag.crlf]
    | some o =>
      have fits := Opening.find_fits opened
      have behind : o.crlf.rest = crlf o.rest := rfl
      simp only [Option.map_some, behind, Opening.lead_crlf fits.indented,
        Closing.find_crlf words.closing.unbroken (bare_behind opened bare)]
      cases Closing.find? x.active.closing.toList o.rest with
      | some c => rfl
      | none =>
        rw [← ahead o.lead _ (fits.whole.trans (List.append_assoc _ _ _))]
        rfl

theorem items (converts : Converts source x y) (words : x.active.Words) (fresh : x.waiting = none)
    (fresh' : y.waiting = none) : y.items = x.items.map (crlfItem source) := by
  have extent := words.clear.hasExtent
  induction x, extent using Scan.stretch_induction generalizing y with
  | ended x extent ended =>
    have ended' : y.stretch? = none := by rw [converts.stretch words, ended, Option.map_none]
    rw [Scan.items_of_none ended fresh, Scan.items_of_none ended' fresh', converts.ending words]
  | step x t extent later met ih =>
    obtain ⟨u, met', stretch⟩ := converts.step words met
    have words' := Stretch.next_words stretch.words
    have extent' : y.active.HasExtent := by rw [converts.active]; exact extent
    rw [Scan.items_of_some met extent fresh, Scan.items_of_some met' extent' fresh',
      List.map_append, ← yielded_crlf, stretch.kept, stretch.tag, ih stretch.next words' rfl rfl]

end Converts
end Mustache
