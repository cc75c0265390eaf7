import Mustache.Proofs.Cut
import Mustache.Proofs.RawText

namespace Mustache
open Text

namespace Text

-- Nothing that a tag might take of the lines beside it.
def Solid (text : List Char) : Prop := ∀ c ∈ text, isBlank c = false ∧ c ≠ '\n'

theorem Solid.nil_of_blanks (solid : Solid text) (blank : ∀ c ∈ text, isBlank c = true) :
    text = [] := by
  cases text with
  | nil => rfl
  | cons c text =>
    have visible := (solid c List.mem_cons_self).1
    rw [blank c List.mem_cons_self] at visible
    cases visible

theorem Solid.nil_of_lineEnd (solid : Solid skipped) (lineEnd : IsLineEnd skipped after) :
    skipped = [] := by
  obtain ⟨blanks, lineBreak, rfl, blank, isBreak⟩ := lineEnd
  obtain rfl := nil_of_blanks (fun c member => solid c (List.mem_append_left _ member)) blank
  rcases isBreak with isBreak | ⟨rfl, -⟩
  · obtain ⟨lead, rfl, -⟩ := isBreak.eq_append
    exact absurd rfl (solid '\n' (by simp)).2
  · rfl

theorem Solid.nil_of_front (solid : Solid lead) (same : skipped ++ after = lead ++ behind)
    (inked : ∀ c, behind.head? = some c → isEdge c = false) (lineEnd : IsLineEnd skipped after) :
    skipped = [] := by
  rcases List.append_eq_append_iff.mp same with ⟨more, rfl, -⟩ | ⟨more, rfl, parts⟩
  · exact nil_of_lineEnd (fun c member => solid c (List.mem_append_left _ member)) lineEnd
  · cases more with
    | nil =>
      rw [List.append_nil] at lineEnd ⊢
      exact nil_of_lineEnd solid lineEnd
    | cons c more =>
      have edge := lineEnd.edges c (by simp)
      rw [inked c (by rw [parts]; rfl)] at edge
      cases edge

theorem First.shorten (first : First word (text ++ tail) lead) (fits : lead ++ word <+: text) :
    First word text lead :=
  ⟨fits, fun u stands => first.earliest u (stands.trans (List.prefix_append text tail))⟩

end Text

theorem Closing.Ends.shorten {text tail after : List Char}
    (ends : Ends delimiter (text ++ tail) inside (after ++ tail)) :
    Ends delimiter text inside after := by
  have parts : text = inside ++ delimiter ++ after := by
    have append := ends.append
    rw [← List.append_assoc] at append
    exact List.append_cancel_right append
  generalize long : text ++ tail = whole at ends
  generalize further : after ++ tail = rest at ends
  cases ends with
  | @braces _ lead n _ first run stops =>
    -- The run of braces ends inside the excerpt or with it, so it is no shorter there.
    subst further long
    rw [← List.append_assoc] at run
    have own := List.append_cancel_right run
    refine .braces (first.shorten ⟨List.replicate n '}' ++ after, ?_⟩) own ?_
    · rw [own]
      simp [List.replicate_succ]
    · intro more
      refine stops ?_
      rw [List.head?_append, more]
      rfl
  | plain other first run =>
    subst long
    exact .plain other (first.shorten ⟨after, parts.symm⟩) parts

namespace Tag

def shift (base : Nat) : Tag → Tag
  | .sectionStart inverted key start pair => .sectionStart inverted key (base + start) pair
  | .blockEnd key stop => .blockEnd key (base + stop)
  | tag => tag

theorem ofBody_shift (active : Delimiters) (start stop base : Nat) (indent body : List Char) :
    ofBody active ⟨base + start, base + stop⟩ indent body =
      (ofBody active ⟨start, stop⟩ indent body).map (shift base) := by
  unfold ofBody
  repeat' split
  all_goals rfl

end Tag

theorem Scope.after_shift (scope : Scope) (base : Nat) (tag : Tag) :
    scope.after (tag.shift base) = scope.after tag := by
  cases tag <;> rfl

theorem Scope.after_within (pair : Delimiters) (blocks outer : List BlockKind) (tag : Tag)
    (nested : ∀ key stop, tag = .blockEnd key stop → blocks ≠ []) :
    Scope.after ⟨pair, blocks ++ outer⟩ tag =
      ⟨(Scope.after ⟨pair, blocks⟩ tag).active, (Scope.after ⟨pair, blocks⟩ tag).blocks ++ outer⟩ := by
  cases tag with
  | blockEnd key stop =>
    rcases blocks with _ | ⟨_ | _, blocks⟩
    · exact absurd rfl (nested key stop rfl)
    · rfl
    · rfl
  | _ => rfl

theorem Stretch.dropped_of_solid (t : Stretch) (sound : t.Sound) (solid : Solid t.opening.lead) :
    t.dropped = [] ∧ t.kept = t.opening.lead := by
  have parts := t.kept_dropped
  have none : t.dropped = [] := by
    refine Solid.nil_of_blanks (fun c member => solid c ?_) fun c member => ?_
    · rw [parts]
      exact List.mem_append_right _ member
    · unfold Stretch.dropped at member
      split at member
      · exact sound.opens.indented c member
      · cases member
  rw [none, List.append_nil] at parts
  exact ⟨none, parts.symm⟩

-- A scan `y` of an excerpt that is as far as the scan `x` of the whole source, in which `base` bytes
-- stand in front of the excerpt, `tail` behind it and some blocks around it.
structure Mirrors (base : Nat) (outer : List BlockKind) (tail : List Char) (x y : Scan) : Prop where
  rest : x.rest = y.rest ++ tail
  offset : x.offset = base + y.offset
  active : x.active = y.active
  blocks : x.blocks = y.blocks ++ outer

namespace Mirrors

theorem meets (mirrors : Mirrors base outer tail x y) (words : x.active.Words)
    (met : Scan.stretch? x = some v) (within : v.closing.rest = after ++ tail) : ∃ o,
    Scan.stretch? y = some ⟨y, o, ⟨v.closing.body, after⟩⟩ ∧ o.lead = v.opening.lead := by
  obtain ⟨rfl, sound, -⟩ := Scan.stretch_sound met
  have clear := words.clear
  have whole := sound.whole
  rw [within, mirrors.rest, ← List.append_assoc] at whole
  have own := List.append_cancel_right whole
  have stands : v.opening.lead ++ v.scan.active.opening.toList <+: y.rest :=
    ⟨v.closing.body ++ v.scan.active.closing.toList ++ after, by
      rw [own]; simp only [List.append_assoc]⟩
  -- The first delimiter of the source lies in the excerpt, and so is the first one there.
  have begins := clear.opens_first sound.opens
  rw [mirrors.rest] at begins
  obtain ⟨o, opened⟩ : ∃ o, Opening.find? v.scan.active.opening.toList (y.offset = 0) y.rest = some o :=
    Opening.find_of_infix ((List.suffix_append _ _).isInfix.trans stands.isInfix)
  have fits := Opening.find_fits opened
  have lead : o.lead = v.opening.lead :=
    (clear.opens_first fits).unique (begins.shorten stands)
  have further : v.opening.rest = o.rest ++ tail := by
    have parts := sound.opens.whole
    rw [mirrors.rest, fits.whole, lead, List.append_assoc _ o.rest] at parts
    exact (List.append_cancel_left parts).symm
  have ends := sound.ends
  rw [further, within] at ends
  have full : y.rest ≠ [] := by
    intro empty
    rw [empty] at stands
    exact words.opening.1 (List.append_eq_nil_iff.mp (List.prefix_nil.mp stands)).2
  refine ⟨o, ?_, lead⟩
  rw [Scan.stretch?, if_neg (by simpa using full), ← mirrors.active, opened]
  simp only [Closing.find_of_ends ends.shorten, Option.map_some]

def Nested (v : Stretch) (y : Scan) : Prop :=
  ∀ key stop, v.tag = some (.blockEnd key stop) → y.blocks ≠ []

-- What the excerpt has right behind a tag: solid text up to its end or up to an open delimiter.
def Onward (after : List Char) : Prop := ∃ lead behind, after = lead ++ behind ∧ Solid lead ∧
  ∀ c, behind.head? = some c → isEdge c = false

theorem skipped_of_onward {w : Stretch} (onward : Onward w.closing.rest) : w.skipped = [] := by
  obtain ⟨lead, behind, same, solid, inked⟩ := onward
  rcases cutLineEnd_fst (w.isStandalone || w.closes) w.closing.rest with none | ⟨-, lineEnd⟩
  · exact none
  · have parts := w.skipped_rest
    rw [same] at parts
    exact solid.nil_of_front parts.symm inked lineEnd

theorem step (mirrors : Mirrors base outer tail x y) (words : x.active.Words)
    (met : Scan.stretch? x = some v) (solid : Solid v.opening.lead) (tight : v.skipped = [])
    (within : v.closing.rest = after ++ tail) (onward : Onward after) (nested : Nested v y) : ∃ w,
    Scan.stretch? y = some w ∧ w.kept = v.kept ∧ v.tag = w.tag.map (Tag.shift base) ∧
      Mirrors base outer tail v.next w.next := by
  obtain ⟨o, met', lead⟩ := mirrors.meets words met within
  obtain ⟨rfl, sound, -⟩ := Scan.stretch_sound met
  have sound' := (Scan.stretch_sound met').2.1
  generalize named : (⟨y, o, ⟨v.closing.body, after⟩⟩ : Stretch) = w at met' sound'
  have scan : w.scan = y := by rw [← named]
  have closing : w.closing = ⟨v.closing.body, after⟩ := by rw [← named]
  have same : w.opening.lead = v.opening.lead := by rw [← lead, ← named]
  obtain ⟨bare, kept⟩ := v.dropped_of_solid sound solid
  obtain ⟨bare', kept'⟩ := w.dropped_of_solid sound' (same ▸ solid)
  have tight' : w.skipped = [] := skipped_of_onward (by rw [closing]; exact onward)
  have start : v.span.start = base + w.span.start := by
    rw [Stretch.span_start, Stretch.span_start, mirrors.offset, same, scan, Nat.add_assoc]
  have stop : v.span.stop = base + w.span.stop := by
    rw [Stretch.span_stop, Stretch.span_stop, start, scan, closing, mirrors.active, Nat.add_assoc]
  have tag : v.tag = w.tag.map (Tag.shift base) := by
    rw [v.tag_eq, w.tag_eq, bare, bare', ← Tag.ofBody_shift, scan, closing, mirrors.active,
      ← start, ← stop]
  have scope : v.next.scope = ⟨w.next.active, w.next.blocks ++ outer⟩ := by
    have around : v.scan.scope = ⟨y.active, y.blocks ++ outer⟩ := by
      rw [Scan.scope, mirrors.active, mirrors.blocks]
    have own : w.next.scope = Scope.afterAll ⟨y.active, y.blocks⟩ w.tag.toList := by
      rw [w.next_scope, scan, Scan.scope]
    have inner : (⟨w.next.active, w.next.blocks ++ outer⟩ : Scope) =
        ⟨w.next.scope.active, w.next.scope.blocks ++ outer⟩ := rfl
    rw [v.next_scope, around, inner, own, tag]
    cases read : w.tag with
    | none => rfl
    | some found =>
      refine Eq.trans (Scope.after_shift _ base found) (Scope.after_within _ _ _ _ ?_)
      rintro key stop rfl
      exact nested key (base + stop) (by rw [tag, read]; rfl)
  refine ⟨w, met', by rw [kept', kept, same], tag, ?_, ?_, congrArg Scope.active scope,
    congrArg Scope.blocks scope⟩
  · have parts := v.skipped_rest
    have parts' := w.skipped_rest
    rw [tight, List.nil_append, within] at parts
    rw [tight', List.nil_append, closing] at parts'
    rw [← parts, ← parts']
  · rw [v.next_offset, w.next_offset, tight, tight', stop, Nat.add_assoc]

end Mirrors

-- A scan comes by way of some tags to one more, behind whose lead the excerpt ends. Neither lead nor
-- line end of any tag before has anything that could be dropped.
structure Excerpt (x : Scan) (inside : List Stretch) (u : Stretch) (tail : List Char) : Prop where
  path : Scan.Reaches x inside u.scan
  ends : Scan.stretch? u.scan = some u
  words : x.active.Words
  solid : ∀ v ∈ inside, Solid v.opening.lead ∧ v.skipped = []
  last : Solid u.opening.lead
  stops : u.scan.rest = u.opening.lead ++ tail

namespace Excerpt

theorem onward (excerpt : Excerpt x inside u tail) :
    ∃ after, x.rest = after ++ tail ∧ Mirrors.Onward after := by
  obtain ⟨path, ends, words, solid, last, stops⟩ := excerpt
  cases path with
  | here => exact ⟨_, stops, _, [], (List.append_nil _).symm, last, nofun⟩
  | @tag _ v ts _ met later =>
    obtain ⟨rfl, sound, -⟩ := Scan.stretch_sound met
    obtain ⟨lead, tight⟩ := solid v List.mem_cons_self
    obtain ⟨taken, rest, -⟩ := later.rest_eq
    obtain ⟨c, more, opens, inked⟩ := words.clear.opens
    have parts := v.skipped_rest
    rw [tight, List.nil_append, rest, stops] at parts
    have whole := sound.whole
    refine ⟨v.opening.lead ++ (v.scan.active.opening.toList ++ v.closing.body ++
      v.scan.active.closing.toList ++ (taken ++ u.opening.lead)), ?_, _, _, rfl, lead, ?_⟩
    · rw [whole, parts]
      simp only [List.append_assoc]
    · rw [opens]
      rintro _ ⟨⟩
      exact inked

theorem step (excerpt : Excerpt x (v :: inside) u tail) :
    Scan.stretch? x = some v ∧ Excerpt v.next inside u tail := by
  obtain ⟨path, ends, words, solid, last, stops⟩ := excerpt
  cases path with
  | tag met later =>
    obtain ⟨rfl, -⟩ := Scan.stretch_sound met
    exact ⟨met, later, ends, Stretch.next_words words,
      fun w member => solid w (List.mem_cons_of_mem _ member), last, stops⟩

theorem ending (excerpt : Excerpt x [] u tail) (mirrors : Mirrors base outer tail x y)
    (fresh : y.waiting = none) : y.items = Scan.yielded u.kept none := by
  obtain ⟨path, ends, words, -, last, stops⟩ := excerpt
  cases path
  have sound := (Scan.stretch_sound ends).2.1
  have left : y.rest = u.opening.lead :=
    List.append_cancel_right (mirrors.rest.symm.trans stops)
  have absent : ¬ y.active.opening.toList <:+: y.rest := by
    rintro ⟨lead, more, same⟩
    rw [← mirrors.active] at same
    have first := words.clear.opens_first sound.opens
    have late := first.earliest lead ⟨more ++ tail, by rw [stops, ← left, ← same]; simp⟩
    have full := List.length_pos_iff.mpr words.opening.1
    rw [← left, ← same] at late
    simp only [List.length_append] at late
    omega
  have ended : Scan.stretch? y = none := by
    cases met : y.stretch? with
    | none => rfl
    | some w =>
      obtain ⟨rfl, found, -⟩ := Scan.stretch_sound met
      exact absurd ⟨_, _, found.opens.whole.symm⟩ absent
  rw [Scan.items_of_none ended fresh, (u.dropped_of_solid sound last).2, ← left]
  rcases Scan.ending_cases ended with ⟨empty, none⟩ | ⟨full, -, text⟩ | ⟨o, fits, -⟩
  · rw [none, empty]
    rfl
  · rw [text, Scan.yielded, List.isEmpty_eq_false_iff.mpr full]
    rfl
  · exact absurd ⟨_, _, fits.whole.symm⟩ absent

end Excerpt

theorem yielded_shift (base : Nat) (text : List Char) (tag : Option Tag) :
    (Scan.yielded text tag).map (Except.map (Tag.shift base)) =
      Scan.yielded text (tag.map (Tag.shift base)) := by
  unfold Scan.yielded
  cases text.isEmpty <;> cases tag <;> rfl

theorem Scope.afterAll_yielded_shift (scope : Scope) (base : Nat) (text : List Char)
    (tag : Option Tag) : scope.afterAll (tagsOf (Scan.yielded text (tag.map (Tag.shift base)))) =
      scope.afterAll (tagsOf (Scan.yielded text tag)) := by
  unfold Scan.yielded
  cases text.isEmpty with
  | true =>
    cases tag with
    | none => rfl
    | some tag => exact scope.after_shift base tag
  | false =>
    cases tag with
    | none => rfl
    | some tag => exact scope.after_shift base tag

namespace Assembly

theorem kinds_of_ended {a b : Assembly}
    (fed : (Scan.yielded text (some (.blockEnd key stop))).foldlM (feed source) a = .ok b) :
    a.kinds ≠ [] := by
  obtain ⟨c, before, fed⟩ := feed_append_iff.mp fed
  obtain ⟨d, left, -⟩ := feed_cons_iff.mp fed
  have same : c.kinds = a.kinds := by
    cases empty : text.isEmpty with
    | true =>
      rw [empty] at before
      cases before
      rfl
    | false =>
      rw [empty] at before
      cases before
      exact a.add_kinds _
  rw [← same]
  cases leave_eq_ok_iff.mp left <;> exact List.cons_ne_nil _ _

end Assembly

namespace Excerpt

theorem items_eq (excerpt : Excerpt x inside u tail) (mirrors : Mirrors base outer tail x y)
    (fresh : y.waiting = none) {a b : Assembly} (kinds : y.blocks = a.kinds)
    (fed : (Scan.itemsOf inside).foldlM (Assembly.feed source) a = .ok b) :
    y.items.map (Except.map (Tag.shift base)) =
      Scan.itemsOf inside ++ Scan.yielded u.kept none := by
  induction inside generalizing x y a with
  | nil =>
    rw [excerpt.ending mirrors fresh, yielded_shift]
    rfl
  | cons v inside ih =>
    rw [Scan.itemsOf_cons] at fed
    obtain ⟨c, first, rest⟩ := Assembly.feed_append_iff.mp fed
    obtain ⟨met, later⟩ := excerpt.step
    obtain ⟨lead, tight⟩ := excerpt.solid v List.mem_cons_self
    obtain ⟨after, within, onward⟩ := later.onward
    have parts := v.skipped_rest
    rw [tight, List.nil_append, within] at parts
    -- The assembly that is fed on the way has the blocks of the excerpt open and no others.
    have nested : Mirrors.Nested v y := by
      intro key stop ended
      rw [ended] at first
      rw [kinds]
      exact Assembly.kinds_of_ended first
    obtain ⟨w, met', kept, tag, goesOn⟩ :=
      mirrors.step excerpt.words met lead tight parts onward nested
    have kinds' : w.next.blocks = c.kinds := by
      obtain ⟨rfl, -⟩ := Scan.stretch_sound met'
      rw [← Assembly.feedAll_kinds first w.scan.scope kinds, tag, ← kept,
        Scope.afterAll_yielded_shift, ← w.scope_of_yielded]
      rfl
    have extent : y.active.HasExtent := by
      rw [← mirrors.active]
      exact excerpt.words.clear.hasExtent
    rw [Scan.items_of_some met' extent fresh, List.map_append, yielded_shift, ← tag, kept,
      ih later goesOn rfl kinds' rest, Scan.itemsOf_cons, List.append_assoc]

end Excerpt
end Mustache
