import Mustache.Proofs.Site

namespace Mustache
open Text

def Run.mark (run : Run) : Mark := ⟨.text (String.ofList run.text), ⟨run.start, run.stop⟩⟩

theorem Run.mark_fits (run : Run) : run.mark.Fits := ⟨Nat.le_add_right _ _, nofun, nofun⟩

namespace Stretch

def textMarks (t : Stretch) : List Mark := if t.kept.isEmpty then [] else [t.run.mark]

def tagMarks (t : Stretch) : List Mark :=
  match t.tag with
  | none => []
  | some tag => if tag.isChange then [] else [⟨tag, t.span⟩]

def marks (t : Stretch) : List Mark := t.textMarks ++ t.tagMarks

theorem textMarks_tags (t : Stretch) :
    t.textMarks.map Mark.tag = settled (Scan.yielded t.kept none) := by
  unfold textMarks Scan.yielded
  cases t.kept.isEmpty <;> rfl

theorem marks_tags (t : Stretch) : t.marks.map Mark.tag = settled (Scan.yielded t.kept t.tag) := by
  have parts : Scan.yielded t.kept t.tag =
      Scan.yielded t.kept none ++ (t.tag.map Except.ok).toList := by
    rw [Scan.yielded, Scan.yielded]
    exact congrArg (· ++ _) (List.append_nil _).symm
  rw [parts, settled_append, ← textMarks_tags, marks, List.map_append]
  congr 1
  unfold tagMarks
  cases t.tag with
  | none => rfl
  | some tag => cases change : tag.isChange <;> simp [settled, tagsOf, Except.toOption, change]

theorem tag_fits (t : Stretch) {tag : Tag} (found : t.tag = some tag) : Mark.Fits ⟨tag, t.span⟩ := by
  rw [t.tag_eq] at found
  refine ⟨t.span_forward, ?_, ?_⟩
  · rintro inverted key start pair rfl
    exact (Tag.ofBody_sectionStart found).1
  · rintro key stop rfl
    exact Tag.ofBody_blockEnd found

theorem mem_textMarks {t : Stretch} (member : m ∈ t.textMarks) : m = t.run.mark := by
  unfold textMarks at member
  split at member
  · cases member
  · exact List.mem_singleton.mp member

theorem mem_tagMarks {t : Stretch} (member : m ∈ t.tagMarks) :
    t.tag = some m.tag ∧ t.span = m.span := by
  unfold tagMarks at member
  split at member
  · cases member
  · split at member
    · cases member
    · obtain rfl := List.mem_singleton.mp member
      exact ⟨‹_›, rfl⟩

theorem tagMarks_length (t : Stretch) : t.tagMarks.length ≤ 1 := by
  unfold tagMarks
  split
  · simp
  · split <;> simp

theorem split_marks {t : Stretch} (tagged : ∀ run, m.tag ≠ .text run)
    (split : t.marks = before ++ m :: after) :
    m ∈ t.tagMarks ∧ before = t.textMarks ∧ after = [] := by
  have few := t.tagMarks_length
  rcases List.append_eq_append_iff.mp split with ⟨gap, rfl, tags⟩ | ⟨gap, texts, tags⟩
  · rw [tags, List.length_append, List.length_cons] at few
    obtain rfl : gap = [] := List.eq_nil_of_length_eq_zero (by omega)
    obtain rfl : after = [] := List.eq_nil_of_length_eq_zero (by omega)
    exact ⟨by simp [tags], List.append_nil _, rfl⟩
  · cases gap with
    | nil =>
      rw [List.nil_append] at tags
      rw [← tags, List.length_cons] at few
      obtain rfl : after = [] := List.eq_nil_of_length_eq_zero (by omega)
      exact ⟨by simp [← tags], by rw [texts, List.append_nil], rfl⟩
    | cons n gap =>
      obtain ⟨rfl, -⟩ := List.cons.inj tags
      have member : m ∈ t.textMarks := by simp [texts]
      exact absurd (congrArg Mark.tag (mem_textMarks member)) (tagged _)

theorem marks_row (t : Stretch) : Mark.Row t.marks ∧
    ∀ m ∈ t.marks, t.scan.offset ≤ m.span.start ∧ m.span.stop ≤ t.span.stop := by
  have before := Scan.run_stop_le t
  have forward := t.span_forward
  refine ⟨Mark.Row.append_iff.mpr ⟨?_, ?_, ?_⟩, ?_⟩
  · unfold textMarks
    split
    · exact .nil
    · exact .single t.run.mark_fits
  · unfold tagMarks
    split
    · exact .nil
    · split
      · exact .nil
      · exact .single (t.tag_fits ‹_›)
  · intro m one n other
    rw [mem_textMarks one, ← (mem_tagMarks other).2]
    exact before
  · intro m member
    rcases List.mem_append.mp member with member | member
    · rw [mem_textMarks member]
      exact ⟨Nat.le_refl _, Nat.le_trans before forward⟩
    · rw [← (mem_tagMarks member).2]
      exact ⟨Nat.le_add_right _ _, Nat.le_refl _⟩

end Stretch

namespace Scan

def lastMarks (s : Scan) : List Mark := s.last.lastRun.map Run.mark

def marks (s : Scan) : List Mark := s.stretches.flatMap Stretch.marks ++ s.lastMarks

def itemsOf (ts : List Stretch) : List Item := ts.flatMap fun t => yielded t.kept t.tag

theorem itemsOf_cons (t : Stretch) (ts : List Stretch) :
    itemsOf (t :: ts) = yielded t.kept t.tag ++ itemsOf ts :=
  List.flatMap_cons

theorem settled_itemsOf (ts : List Stretch) :
    (ts.flatMap Stretch.marks).map Mark.tag = settled (itemsOf ts) := by
  induction ts with
  | nil => rfl
  | cons t ts ih =>
    rw [List.flatMap_cons, itemsOf_cons, List.map_append, settled_append, ih, t.marks_tags]

theorem marks_tags (s : Scan) (extent : s.active.HasExtent) (fresh : s.waiting = none) :
    s.marks.map Mark.tag = settled s.items := by
  have all : s.items = itemsOf s.stretches ++ s.last.ending := items_eq s extent fresh
  rw [all, settled_append, ← settled_itemsOf, marks, List.map_append]
  congr 1
  unfold lastMarks ending lastRun
  cases s.last.round <;> rfl

theorem marks_of_some (met : stretch? s = some t) (extent : s.active.HasExtent) :
    s.marks = t.marks ++ t.next.marks := by
  obtain ⟨first, last⟩ := stretches_of_some met extent
  rw [marks, first, List.flatMap_cons, List.append_assoc, lastMarks, last]
  rfl

theorem marks_row (s : Scan) (extent : s.active.HasExtent) :
    Mark.Row s.marks ∧ ∀ m ∈ s.marks, s.offset ≤ m.span.start := by
  induction s, extent using stretch_induction with
  | ended s extent ended =>
    obtain ⟨none, last⟩ := stretches_of_none ended
    rw [marks, none, List.flatMap_nil, List.nil_append, lastMarks, last]
    unfold lastRun
    split
    · refine ⟨.single (Run.mark_fits _), fun m member => ?_⟩
      obtain rfl := List.mem_singleton.mp member
      exact Nat.le_refl _
    · exact ⟨.nil, nofun⟩
  | step s t extent later met ih =>
    obtain ⟨rest, beyond⟩ := ih
    obtain ⟨row, inside⟩ := t.marks_row
    rw [marks_of_some met extent]
    obtain ⟨rfl, -⟩ := stretch_sound met
    have moved := t.next_offset
    refine ⟨Mark.Row.append_iff.mpr ⟨row, rest, fun m one n other => ?_⟩, fun m member => ?_⟩
    · have stop := (inside m one).2
      have start := beyond n other
      omega
    · rcases List.mem_append.mp member with member | member
      · exact (inside m member).1
      · have start := beyond m member
        have stop := t.moves extent
        omega

theorem split_marks (ts : List Stretch) (texts : List Mark)
    (plain : ∀ n ∈ texts, ∃ run, n.tag = .text run) (tagged : ∀ run, m.tag ≠ .text run)
    (split : ts.flatMap Stretch.marks ++ texts = before ++ m :: after) :
    ∃ earlier t later, ts = earlier ++ t :: later ∧ t.tag = some m.tag ∧ t.span = m.span ∧
      before = earlier.flatMap Stretch.marks ++ t.textMarks ∧
      after = later.flatMap Stretch.marks ++ texts := by
  induction ts generalizing before with
  | nil =>
    have member : m ∈ texts := by
      rw [List.flatMap_nil, List.nil_append] at split
      rw [split]
      simp
    obtain ⟨run, same⟩ := plain m member
    exact absurd same (tagged run)
  | cons t ts ih =>
    rw [List.flatMap_cons, List.append_assoc] at split
    rcases List.append_eq_append_iff.mp split with ⟨more, rfl, rest⟩ | ⟨more, marks, rest⟩
    · obtain ⟨earlier, u, later, rfl, found, span, rfl, behind⟩ := ih rest
      exact ⟨t :: earlier, u, later, rfl, found, span, by simp, behind⟩
    · cases more with
      | nil =>
        have first : _ = [] ++ m :: after := rest.symm
        obtain ⟨earlier, u, later, rfl, found, span, none, behind⟩ := ih first
        refine ⟨t :: earlier, u, later, rfl, found, span, ?_, behind⟩
        rw [List.flatMap_cons, List.append_assoc, ← none, marks, List.append_nil, List.append_nil]
      | cons n more =>
        obtain ⟨rfl, behind⟩ := List.cons.inj rest
        obtain ⟨own, rfl, rfl⟩ := Stretch.split_marks tagged marks
        obtain ⟨found, span⟩ := Stretch.mem_tagMarks own
        exact ⟨[], t, ts, rfl, found, span, rfl, behind⟩

theorem lastMarks_text (s : Scan) : ∀ m ∈ s.lastMarks, ∃ run, m.tag = .text run := by
  intro m member
  obtain ⟨run, -, rfl⟩ := List.mem_map.mp member
  exact ⟨_, rfl⟩

end Scan

namespace Site

-- The stretches of a scan between the open tag and the end tag of a section hand out the balanced
-- stream that makes its children.
inductive Matched (source : List Char) (s : Scan) (site : Site) (t : Stretch)
    (inside : List Stretch) (u : Stretch) : Prop where
  | between (parts : s.stretches = before ++ t :: (inside ++ u :: after))
      (opens : t.tag = some (.sectionStart site.inverted site.key site.content site.pair))
      (span : t.span = ⟨site.start, site.content⟩)
      (ends : u.tag = some (.blockEnd site.key site.stop)) (stops : u.span.start = site.stop)
      (inner : Balanced source (settled (Scan.itemsOf inside ++ Scan.yielded u.kept none))
        site.children definitions)
      (distinct : (definitions.map Prod.fst).Nodup) : Matched source s site t inside u

-- The source up to the end tag of a section: the open tag lies between the two delimiters that the
-- section keeps, and the raw text is all that follows it.
structure Cuts (source : List Char) (site : Site) (ahead body text behind : List Char) : Prop where
  whole : source = ahead ++
    (site.pair.opening.toList ++ body ++ site.pair.closing.toList) ++ text ++ behind
  start : size ahead = site.start
  content : size (ahead ++ (site.pair.opening.toList ++ body ++ site.pair.closing.toList)) =
    site.content
  stop : size (ahead ++ (site.pair.opening.toList ++ body ++ site.pair.closing.toList) ++ text) =
    site.stop
  raw : site.raw = String.ofList text

theorem Among.matched (among : Among source s.marks definitions site)
    (distinct : (definitions.map Prod.fst).Nodup) :
    ∃ t inside u, Matched source s site t inside u := by
  obtain @⟨before, opener, inside, closer, after, within, parts, opens, starts, ends, inner, part,
    reads⟩ := among
  obtain ⟨earlier, t, later, whole, opened, span, -, rest⟩ := Scan.split_marks s.stretches
    s.lastMarks s.lastMarks_text (by rw [opens]; nofun) parts
  obtain ⟨between, u, later, rfl, closed, span', inside, -⟩ := Scan.split_marks later
    s.lastMarks s.lastMarks_text (by rw [ends]; nofun) rest.symm
  rw [opens] at opened
  rw [ends] at closed
  have content := (t.tag_fits opened).opens _ _ _ _ rfl
  have stop := (u.tag_fits closed).ends _ _ rfl
  rw [inside, List.map_append, Scan.settled_itemsOf, Stretch.textMarks_tags,
    ← settled_append] at inner
  refine ⟨t, between, u, .between whole opened ?_ closed stop.symm inner
    (distinct.sublist (part.sublist.map Prod.fst))⟩
  rw [content, ← starts, ← span]

end Site

theorem Stretch.Sound.parts (sound : Stretch.Sound t) (upto : Scan.Upto source t.scan) :
    ∃ front, source = front ++ (t.scan.active.opening.toList ++ t.closing.body ++
      t.scan.active.closing.toList) ++ t.closing.rest ∧ size front = t.span.start := by
  obtain ⟨ahead, rfl, reached⟩ := upto
  refine ⟨ahead ++ t.opening.lead, ?_, ?_⟩
  · rw [sound.whole]
    simp only [List.append_assoc]
  · rw [size_append, reached, span_start]

namespace Site

theorem Matched.paths (matched : Matched source s site t inside u) (extent : s.active.HasExtent) :
    (∃ before, Scan.Reaches s before t.scan) ∧ t.Sound ∧ Scan.Reaches t.next inside u.scan ∧
      Scan.stretch? u.scan = some u := by
  obtain ⟨parts, -⟩ := matched
  obtain ⟨path, sound, extent', rest, -⟩ := Scan.reaches_of_stretches extent parts
  obtain ⟨path', met, -⟩ := Scan.reaches_tag (Stretch.next_hasExtent extent') rest
  exact ⟨⟨_, path⟩, sound, path', met⟩

theorem Matched.pair_eq (matched : Matched source s site t inside u) :
    site.pair = t.scan.active := by
  obtain ⟨-, opens, -⟩ := matched
  exact (Tag.ofBody_sectionStart (t.tag_eq ▸ opens)).2

theorem Matched.cuts (matched : Matched source s site t inside u) (upto : s.Upto source)
    (extent : s.active.HasExtent) (reads : RawText source site.content site.stop site.raw) :
    ∃ ahead body text behind, Cuts source site ahead body text behind := by
  obtain ⟨⟨before, path⟩, sound, path', met⟩ := matched.paths extent
  have pair := matched.pair_eq
  obtain ⟨-, -, span, -, stops, -⟩ := matched
  have here := path.invariant Scan.Upto.next upto
  have there := path'.invariant Scan.Upto.next (.next t sound here)
  obtain ⟨front, whole, start⟩ := sound.parts here
  obtain ⟨front', whole', start'⟩ := (Scan.stretch_sound met).2.1.parts there
  have order : t.span.stop ≤ u.span.start := by
    have onward := path'.offset_le.1
    rw [Stretch.next_offset] at onward
    rw [Stretch.span_start]
    omega
  rw [← pair] at whole
  have content : size (front ++ (site.pair.opening.toList ++ t.closing.body ++
      site.pair.closing.toList)) = site.content := by
    rw [pair, size_append, start, ← t.span_stop, span]
  -- Both splits are of one source, and the end tag starts no earlier than the open tag stops.
  rw [List.append_assoc front'] at whole'
  obtain ⟨text, rfl, -⟩ := append_of_size_le (whole.symm.trans whole')
    (by rw [content, start', stops]; rw [span, stops] at order; exact order)
  have stop := start'.trans stops
  refine ⟨front, t.closing.body, text, _, whole', ?_, content, stop, ?_⟩
  · rw [start, span]
  · rw [rawText_iff.mp reads, ← stop, size_append _ text, ← content]
    exact Assembly.rawText_eq whole' rfl

end Site

namespace Assembly

theorem items_of_fed {items : List Item} {a b : Assembly}
    (fed : items.foldlM (feed source) a = .ok b) : items = (tagsOf items).map Except.ok := by
  induction items generalizing a with
  | nil => rfl
  | cons item items ih =>
    obtain ⟨next, first, rest⟩ := feed_cons_iff.mp fed
    cases item with
    | error fault => cases first
    | ok tag => exact congrArg _ (ih rest)

end Assembly

namespace Document

theorem parseWith_eq_ok_iff : parseWith pair source = .ok d ↔ pair.isUsable = true ∧
    ofItems source.toList (Scan.start source.toList pair).items = .ok d := by
  unfold parseWith
  constructor
  · intro parsed
    split at parsed
    · cases parsed
    · rename_i s begun
      obtain ⟨usable, rfl⟩ := Scan.start_eq_ok_iff.mp begun
      exact ⟨usable, parsed⟩
  · rintro ⟨usable, built⟩
    rw [Scan.start_eq_ok_iff.mpr ⟨usable, rfl⟩]
    exact built

theorem balanced_of_items (built : ofItems source items = .ok d) : ∃ definitions,
    Balanced source (settled items) d.root definitions ∧ (definitions.map Prod.fst).Nodup ∧
      d.partials = Entries.ofPairs definitions := by
  obtain ⟨a, fed, -⟩ := ofItems_eq_ok_iff.mp built
  rw [Assembly.items_of_fed fed, ← ofItems_settled] at built
  exact balanced_of_ofItems (fun tag member => by simpa using (List.mem_filter.mp member).2) built

theorem sites_of_parsed (parsed : parseWith pair source = .ok d) (extent : pair.HasExtent) :
    ∃ (sites : List Site) (definitions : List (String × List Node)),
      (sites.map Site.node).Perm d.sections ∧ (definitions.map Prod.fst).Nodup ∧
      (∀ site ∈ sites,
        site.Among source.toList (Scan.start source.toList pair).marks definitions) ∧
      sites.Pairwise Site.Apart := by
  obtain ⟨-, built⟩ := parseWith_eq_ok_iff.mp parsed
  obtain ⟨definitions, balanced, distinct, partials⟩ := balanced_of_items built
  have tags := Scan.marks_tags (Scan.start source.toList pair) extent rfl
  have row := (Scan.marks_row (Scan.start source.toList pair) extent).1
  obtain ⟨sites, perm, among, apart⟩ := balanced.sites _ tags row
  refine ⟨sites, definitions, ?_, distinct, among, apart⟩
  rw [Document.sections, partials]
  exact perm.trans (((Entries.ofPairs_perm distinct).flatMap_right _).symm.append_left _)

-- Each section of a document, in its root or in a partial, has an open tag and a matching end tag
-- in the source, with exactly its raw text between them. Of two sections one stands behind the
-- other or in the content of the other.
theorem sections_cut_source (parsed : parseWith pair source = .ok d) (extent : pair.HasExtent) :
    ∃ sites : List Site, (sites.map Site.node).Perm d.sections ∧
      (∀ site ∈ sites,
        (∃ t inside u,
          site.Matched source.toList (Scan.start source.toList pair) t inside u) ∧
        ∃ ahead body text behind, site.Cuts source.toList ahead body text behind) ∧
      sites.Pairwise Site.Apart := by
  obtain ⟨sites, definitions, perm, distinct, among, apart⟩ := sites_of_parsed parsed extent
  refine ⟨sites, perm, fun site member => ?_, apart⟩
  have found := among site member
  have begins := Scan.upto_start source.toList pair
  obtain ⟨t, inside, u, matched⟩ := found.matched distinct
  exact ⟨⟨t, inside, u, matched⟩, matched.cuts begins extent found.reads⟩

end Document

namespace BarsWithin

def source : String := "\x7b\x7b#a\x7d\x7d\x7b\x7b=| |=\x7d\x7d|^b| c |/b||/a|"

def inner : Node := .block true "b" [.text " c "] " c " ⟨"|", "|"⟩

def outer : Node := .block false "a" [inner] "\x7b\x7b=| |=\x7d\x7d|^b| c |/b|" .standard

theorem parsed : Document.parseWith .standard source = .ok ⟨[outer], []⟩ := by decide +kernel

end BarsWithin

open BarsWithin in
theorem Document.sections_cut_bars : parseWith .standard source = .ok ⟨[outer], []⟩ ∧
    Delimiters.standard.HasExtent ∧
    ∃ sites : List Site, (sites.map Site.node).Perm [outer, inner] ∧
      (∀ site ∈ sites, ∃ ahead body text behind,
        site.Cuts source.toList ahead body text behind) ∧ sites.Pairwise Site.Apart := by
  have extent := Delimiters.standard_words.clear.hasExtent
  obtain ⟨sites, perm, cut, apart⟩ := sections_cut_source parsed extent
  exact ⟨parsed, extent, sites, perm, fun site member => (cut site member).2, apart⟩

end Mustache
