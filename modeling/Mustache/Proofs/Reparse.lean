import Mustache.Proofs.Excerpt
import Mustache.Render.Walk

namespace Mustache
open Text

theorem RawText.excerpt (reads : RawText source (size ahead + start) (size ahead + stop) raw)
    (whole : source = ahead ++ text ++ behind) (inside : stop ≤ size text) :
    RawText text start stop raw := by
  cases reads with
  | @range before middle after parts starts stops =>
    rw [whole, List.append_assoc, List.append_assoc] at parts
    obtain ⟨lead, rfl, rest⟩ := append_of_size_le parts (by omega)
    rw [size_append] at starts stops
    rw [← List.append_assoc] at rest
    obtain ⟨more, rfl, -⟩ := append_of_size_le rest.symm (by rw [size_append]; omega)
    exact .range rfl (by omega) (by omega)
  | none absent =>
    refine .none fun before middle after parts starts stops => ?_
    refine absent (ahead ++ before) middle (after ++ behind) ?_ ?_ ?_
    · rw [whole, parts]
      simp only [List.append_assoc]
    · rw [size_append, starts]
    · rw [size_append]
      omega

theorem Tag.shift_sectionStart {tag : Tag}
    (same : tag.shift base = .sectionStart inverted key start pair) :
    ∃ own, tag = .sectionStart inverted key own pair ∧ start = base + own := by
  cases tag <;> cases same
  exact ⟨_, rfl, rfl⟩

theorem Tag.shift_blockEnd {tag : Tag} (same : tag.shift base = .blockEnd key stop) :
    ∃ own, tag = .blockEnd key own ∧ stop = base + own := by
  cases tag <;> cases same
  exact ⟨_, rfl, rfl⟩

theorem Tag.eq_of_shift {tag : Tag} (same : tag.shift base = other)
    (opens : ∀ inverted key start pair, other ≠ .sectionStart inverted key start pair)
    (ends : ∀ key stop, other ≠ .blockEnd key stop) : tag = other := by
  subst same
  cases tag with
  | sectionStart inverted key start pair => exact absurd rfl (opens inverted key (base + start) pair)
  | blockEnd key stop => exact absurd rfl (ends key (base + stop))
  | _ => rfl

theorem Balanced.excerpt (balanced : Balanced source tags nodes definitions)
    (whole : source = ahead ++ part ++ behind)
    (inside : ∀ key stop, .blockEnd key stop ∈ tags → stop ≤ size ahead + size part)
    (own : List Tag) (same : own.map (Tag.shift (size ahead)) = tags) :
    Balanced part own nodes definitions := by
  induction balanced generalizing own with
  | nil =>
    obtain rfl := List.map_eq_nil_iff.mp same
    exact .nil
  | text later ih =>
    obtain ⟨tag, rest, rfl, first, others⟩ := List.map_eq_cons_iff.mp same
    obtain rfl := Tag.eq_of_shift first nofun nofun
    exact .text (ih (fun key stop member => inside key stop (.tail _ member)) rest others)
  | interpolation later ih =>
    obtain ⟨tag, rest, rfl, first, others⟩ := List.map_eq_cons_iff.mp same
    obtain rfl := Tag.eq_of_shift first nofun nofun
    exact .interpolation (ih (fun key stop member => inside key stop (.tail _ member)) rest others)
  | reference later ih =>
    obtain ⟨tag, rest, rfl, first, others⟩ := List.map_eq_cons_iff.mp same
    obtain rfl := Tag.eq_of_shift first nofun nofun
    exact .reference (ih (fun key stop member => inside key stop (.tail _ member)) rest others)
  | content inner reads later innerOwn laterOwn =>
    obtain ⟨opener, rest, rfl, opens, same⟩ := List.map_eq_cons_iff.mp same
    obtain ⟨between, rest, rfl, innerSame, same⟩ := List.map_eq_append_iff.mp same
    obtain ⟨closer, rest, rfl, ends, laterSame⟩ := List.map_eq_cons_iff.mp same
    obtain ⟨start, rfl, rfl⟩ := Tag.shift_sectionStart opens
    obtain ⟨stop, rfl, rfl⟩ := Tag.shift_blockEnd ends
    have last := inside _ _ (.tail _ (List.mem_append_right _ List.mem_cons_self))
    refine .content (innerOwn (fun key stop member => ?_) between innerSame)
      (reads.excerpt whole (by omega)) (laterOwn (fun key stop member => ?_) rest laterSame)
    · exact inside key stop (.tail _ (List.mem_append_left _ member))
    · exact inside key stop (.tail _ (List.mem_append_right _ (.tail _ member)))
  | definition inner later innerOwn laterOwn =>
    obtain ⟨opener, rest, rfl, opens, same⟩ := List.map_eq_cons_iff.mp same
    obtain ⟨between, rest, rfl, innerSame, same⟩ := List.map_eq_append_iff.mp same
    obtain ⟨closer, rest, rfl, ends, laterSame⟩ := List.map_eq_cons_iff.mp same
    obtain rfl := Tag.eq_of_shift opens nofun nofun
    obtain ⟨stop, rfl, rfl⟩ := Tag.shift_blockEnd ends
    refine .definition (innerOwn (fun key stop member => ?_) between innerSame)
      (laterOwn (fun key stop member => ?_) rest laterSame)
    · exact inside key stop (.tail _ (List.mem_append_left _ member))
    · exact inside key stop (.tail _ (List.mem_append_right _ (.tail _ member)))

theorem Scan.around (extent : s.active.HasExtent) (split : stretches s = earlier ++ v :: later) :
    (∀ w ∈ earlier, w.span.stop ≤ v.scan.offset) ∧ ∀ w ∈ later, v.next.offset ≤ w.span.start := by
  obtain ⟨path, sound, extent', rest, -⟩ := reaches_of_stretches extent split
  refine ⟨fun w member => ?_, fun w member => ?_⟩
  · have onward := (path.offset_le.2 w member).2
    rw [w.next_offset] at onward
    omega
  · rw [← rest] at member
    have onward := offset_le_of_mem (Stretch.next_hasExtent extent') member
    rw [w.span_start]
    omega

namespace Site

-- Outside its tags the content of a section has no blank and no line feed.
def Tight (source : List Char) (s : Scan) (site : Site) : Prop :=
  ∀ before c after, source = before ++ c :: after →
    site.content ≤ size before → size before < site.stop →
    (∀ t ∈ s.stretches, size before < t.span.start ∨ t.span.stop ≤ size before) →
      isBlank c = false ∧ c ≠ '\n'

variable {s : Scan} {v : Stretch} {earlier later : List Stretch}

theorem Tight.solid (tight : Tight source s site) (extent : s.active.HasExtent)
    (split : s.stretches = earlier ++ v :: later) (whole : source = front ++ part ++ behind)
    (after : v.scan.offset ≤ size front) (before : size front + size part ≤ v.next.offset)
    (apart : v.span.stop ≤ size front ∨ size front + size part ≤ v.span.start)
    (starts : site.content ≤ size front) (stops : size front + size part ≤ site.stop) :
    Solid part := by
  intro c member
  obtain ⟨lead, more, rfl⟩ := List.append_of_mem member
  obtain ⟨first, last⟩ := Scan.around extent split
  have positive := c.utf8Size_pos
  have place : size (front ++ lead) = size front + size lead := size_append front lead
  simp only [size_append, size_cons] at before apart stops
  refine tight (front ++ lead) c (more ++ behind) ?_ (by omega) (by omega) fun t found => ?_
  · rw [whole]
    simp
  · rw [split] at found
    rcases List.mem_append.mp found with found | found
    · have bound := first t found
      exact Or.inr (by omega)
    · rcases List.mem_cons.mp found with rfl | found
      · rcases apart with apart | apart
        · exact Or.inr (by omega)
        · exact Or.inl (by omega)
      · have bound := last t found
        exact Or.inl (by omega)

theorem Tight.lead (tight : Tight source s site) (upto : s.Upto source) (extent : s.active.HasExtent)
    (split : s.stretches = earlier ++ v :: later) (starts : site.content ≤ v.scan.offset)
    (stops : v.span.start ≤ site.stop) : Solid v.opening.lead := by
  obtain ⟨path, sound, -⟩ := Scan.reaches_of_stretches extent split
  obtain ⟨ahead, whole, reached⟩ := path.invariant Scan.Upto.next upto
  have start := v.span_start
  have forward := v.span_forward
  have next := v.next_offset
  rw [sound.whole, List.append_assoc _ _ v.closing.rest, ← List.append_assoc] at whole
  exact tight.solid extent split whole (by omega) (by omega) (by omega) (by omega) (by omega)

theorem Tight.skipped (tight : Tight source s site) (upto : s.Upto source)
    (extent : s.active.HasExtent) (split : s.stretches = earlier ++ v :: later)
    (starts : site.content ≤ v.span.stop) (stops : v.next.offset ≤ site.stop) : v.skipped = [] := by
  obtain ⟨path, sound, -⟩ := Scan.reaches_of_stretches extent split
  obtain ⟨front, whole, start⟩ := sound.parts (path.invariant Scan.Upto.next upto)
  have first := v.span_start
  have next := v.next_offset
  have forward := v.span_forward
  have stop := v.span_stop
  rw [← start, ← size_append] at stop
  rw [v.skipped_rest, ← List.append_assoc] at whole
  have solid : Solid v.skipped :=
    tight.solid extent split whole (by omega) (by omega) (by omega) (by omega) (by omega)
  rcases cutLineEnd_fst (v.isStandalone || v.closes) v.closing.rest with none | ⟨-, lineEnd⟩
  · exact none
  · exact solid.nil_of_lineEnd lineEnd

-- What a tight section leaves between its tags is an excerpt that can be read by itself.
theorem Matched.excerpt (matched : Matched source s site t inside u) (upto : s.Upto source)
    (words : s.active.Words) (tight : Tight source s site) : ∃ ahead part tail,
    source = ahead ++ part ++ tail ∧ size ahead = site.content ∧
      size ahead + size part = site.stop ∧ Excerpt t.next inside u tail ∧
      Mirrors site.content t.next.blocks tail t.next (Scan.start part site.pair) := by
  have extent := words.clear.hasExtent
  obtain ⟨⟨before, path⟩, sound, path', met⟩ := matched.paths extent
  have pair := matched.pair_eq
  obtain @⟨earlier, later, definitions, parts, opens, span, ends, stops, -⟩ := matched
  have words' := path.invariant (P := fun m => m.active.Words) (fun _ _ => Stretch.next_words) words
  have content : t.span.stop = site.content := by rw [span]
  have start := u.span_start
  have onward := path'.offset_le.1
  have tight' : t.skipped = [] := tight.skipped upto extent parts (by omega) (by omega)
  have reached : t.next.offset = site.content := by
    rw [t.next_offset, tight', content, size_nil, Nat.add_zero]
  have solid : ∀ v ∈ inside, Solid v.opening.lead ∧ v.skipped = [] := by
    intro v member
    obtain ⟨one, two, rfl⟩ := List.append_of_mem member
    have split : s.stretches = (earlier ++ t :: one) ++ v :: (two ++ u :: later) := by
      rw [parts]
      simp
    obtain ⟨first, last⟩ := Scan.around extent split
    have behind := first t (by simp)
    have front := last u (by simp)
    have first := v.span_start
    have forward := v.span_forward
    have next := v.next_offset
    exact ⟨tight.lead upto extent split (by omega) (by omega),
      tight.skipped upto extent split (by omega) (by omega)⟩
  have last : Solid u.opening.lead := by
    have split : s.stretches = (earlier ++ t :: inside) ++ u :: later := by
      rw [parts]
      simp
    exact tight.lead upto extent split (by omega) (by omega)
  obtain ⟨ahead, whole, here⟩ := Scan.Upto.next t sound (path.invariant Scan.Upto.next upto)
  obtain ⟨taken, between, moved⟩ := path'.rest_eq
  have found := (Scan.stretch_sound met).2.1.whole
  rw [List.append_assoc] at found
  refine ⟨ahead, taken ++ u.opening.lead, _, ?_, here.trans reached, ?_,
    ⟨path', met, Stretch.next_words words', solid, last, found⟩, ?_, ?_, ?_, rfl⟩
  · rw [whole, between, found]
    simp only [List.append_assoc]
  · rw [size_append]
    omega
  · rw [between, found]
    exact (List.append_assoc taken _ _).symm
  · rw [reached]
    rfl
  · have kept : t.next.active = activeAfter t.tag t.scan.blocks t.scan.active := rfl
    rw [kept, opens]
    exact pair.symm

end Site

def Clean (items : List Item) : Prop := ∀ item ∈ items, ∃ tag, item = .ok tag

namespace Clean

theorem items_eq {items : List Item} (clean : Clean items) :
    items = (tagsOf items).map Except.ok := by
  induction items with
  | nil => rfl
  | cons item items ih =>
    obtain ⟨tag, rfl⟩ := clean item List.mem_cons_self
    exact congrArg _ (ih fun other member => clean other (List.mem_cons_of_mem _ member))

theorem append {one other : List Item} (left : Clean one) (right : Clean other) :
    Clean (one ++ other) := by
  intro item member
  rcases List.mem_append.mp member with member | member
  · exact left item member
  · exact right item member

theorem yielded (text : List Char) (tag : Option Tag) : Clean (Scan.yielded text tag) := by
  unfold Scan.yielded
  cases text.isEmpty <;> cases tag <;> simp [Clean]

theorem itemsOf (ts : List Stretch) : Clean (Scan.itemsOf ts) := by
  intro item member
  obtain ⟨t, -, member⟩ := List.mem_flatMap.mp member
  exact yielded t.kept t.tag item member

theorem of_map {items : List Item} (clean : Clean (items.map (Except.map f))) : Clean items := by
  intro item member
  cases item with
  | ok tag => exact ⟨tag, rfl⟩
  | error fault =>
    obtain ⟨tag, same⟩ := clean _ (List.mem_map_of_mem member)
    cases same

end Clean

theorem mem_of_mem_settled (member : tag ∈ settled items) : .ok tag ∈ items := by
  obtain ⟨item, found, same⟩ := List.mem_filterMap.mp (List.mem_filter.mp member).1
  cases item with
  | error fault => cases same
  | ok own =>
    cases same
    exact found

theorem mem_yielded (member : .ok tag ∈ Scan.yielded text own) :
    tag = .text (String.ofList text) ∨ own = some tag := by
  rcases List.mem_append.mp member with member | member
  · split at member
    · cases member
    · cases List.mem_singleton.mp member
      exact Or.inl rfl
  · cases own with
    | none => cases member
    | some found =>
      cases List.mem_singleton.mp member
      exact Or.inr rfl

theorem settled_shift (base : Nat) (items : List Item) :
    settled (items.map (Except.map (Tag.shift base))) = (settled items).map (Tag.shift base) := by
  induction items with
  | nil => rfl
  | cons item items ih =>
    cases item with
    | error fault => exact ih
    | ok tag =>
      have same : (tag.shift base).isChange = tag.isChange := by cases tag <;> rfl
      simp only [settled, List.map_cons, Except.map, tagsOf_ok, List.filter_cons, same] at ih ⊢
      cases tag.isChange <;> simp [ih]

theorem Tag.ofBody_usable (found : ofBody active span indent body = some (.delimiterChange pair)) :
    pair.isUsable = true := by
  unfold ofBody at found
  repeat' split at found
  all_goals simp at found
  subst found
  assumption

theorem Stretch.next_usable {t : Stretch} (usable : t.scan.active.isUsable = true) :
    t.next.active.isUsable = true := by
  have kept : t.next.active = activeAfter t.tag t.scan.blocks t.scan.active := rfl
  rw [kept]
  unfold activeAfter
  split
  · exact Delimiters.standard_usable
  · split
    · rename_i changed
      exact Tag.ofBody_usable (t.tag_eq ▸ changed)
    · exact usable

namespace Assembly

theorem feed_of_balanced {items more : List Item} (clean : Clean (items ++ more))
    (balanced : Balanced source (settled (items ++ more)) nodes definitions)
    (distinct : (definitions.map Prod.fst).Nodup) :
    ∃ a, items.foldlM (feed source) empty = .ok a := by
  have admits : empty.Admits definitions := ⟨distinct, fun _ _ => rfl⟩
  have fed := feed_balanced balanced empty admits
  rw [settled, Document.feed_settled, ← clean.items_eq] at fed
  obtain ⟨a, first, -⟩ := feed_append_iff.mp fed
  exact ⟨a, first⟩

end Assembly

theorem Document.ofItems_of_settled (clean : Clean items)
    (balanced : Balanced source (settled items) nodes definitions)
    (distinct : (definitions.map Prod.fst).Nodup) :
    ofItems source items = .ok ⟨nodes, Entries.ofPairs definitions⟩ := by
  rw [clean.items_eq, ← ofItems_settled]
  exact ofItems_of_balanced balanced distinct

namespace Site

theorem Matched.stops_le (matched : Matched source s site t inside u) (extent : s.active.HasExtent) :
    ∀ name offset, .blockEnd name offset ∈
      settled (Scan.itemsOf inside ++ Scan.yielded u.kept none) → offset ≤ site.stop := by
  intro name offset member
  obtain ⟨-, -, path, -⟩ := matched.paths extent
  obtain ⟨-, -, -, -, stops, -⟩ := matched
  rcases List.mem_append.mp (mem_of_mem_settled member) with member | member
  · obtain ⟨v, found, member⟩ := List.mem_flatMap.mp member
    have ended : v.tag = some (.blockEnd name offset) := by
      rcases mem_yielded member with same | ended
      · cases same
      · exact ended
    have place := (v.tag_fits ended).ends _ _ rfl
    have onward := (path.offset_le.2 v found).2
    have forward := v.span_forward
    have next := v.next_offset
    have start := u.span_start
    dsimp only at place
    omega
  · rcases mem_yielded member with same | none
    · cases same
    · cases none

theorem Matched.reparse (matched : Matched source s site t inside u) (upto : s.Upto source)
    (words : s.active.Words) (usable : s.active.isUsable = true)
    (reads : RawText source site.content site.stop site.raw) (tight : Tight source s site) :
    ∃ e, Document.parseWith site.pair site.raw = .ok e ∧ e.root = site.children := by
  obtain ⟨ahead, part, tail, whole, starts, stops, excerpt, mirrors⟩ :=
    matched.excerpt upto words tight
  have extent := words.clear.hasExtent
  have bound := matched.stops_le extent
  obtain ⟨⟨before, path⟩, -⟩ := matched.paths extent
  have pair : site.pair.isUsable = true := by
    rw [matched.pair_eq]
    exact path.invariant (P := fun m => m.active.isUsable = true)
      (fun _ _ => Stretch.next_usable) usable
  obtain ⟨-, -, -, -, -, inner, distinct⟩ := matched
  have clean : Clean (Scan.itemsOf inside ++ Scan.yielded u.kept none) :=
    (Clean.itemsOf inside).append (.yielded u.kept none)
  obtain ⟨a, fed⟩ := Assembly.feed_of_balanced clean inner distinct
  have same := excerpt.items_eq mirrors rfl rfl fed
  have own : Clean (Scan.start part site.pair).items := Clean.of_map (same ▸ clean)
  have balanced : Balanced part (settled (Scan.start part site.pair).items) _ _ :=
    inner.excerpt whole (fun name offset member => stops ▸ bound name offset member) _ (by
      rw [← settled_shift, starts, same])
  have raw : site.raw.toList = part := by
    rw [rawText_iff.mp reads, ← starts, ← stops, Assembly.rawText_eq whole rfl, String.toList_ofList]
  have built := Document.ofItems_of_settled own balanced distinct
  rw [← raw] at built
  exact ⟨_, Document.parseWith_eq_ok_iff.mpr ⟨pair, built⟩, rfl⟩

end Site

def Cache.Sound (cache : Cache) : Prop :=
  ∀ entry ∈ cache, Document.parseWith entry.1.2 entry.1.1 = .ok entry.2

theorem Setting.find_sound (sound : Cache.Sound cache) (found : find? text pair cache = some d) :
    Document.parseWith pair text = .ok d := by
  induction cache with
  | nil => cases found
  | cons entry cache ih =>
    obtain ⟨⟨text', pair'⟩, document⟩ := entry
    unfold find? at found
    split at found
    · rename_i same
      simp only [Bool.and_eq_true, decide_eq_true_eq] at same
      obtain ⟨rfl, rfl⟩ := same
      cases found
      exact sound _ List.mem_cons_self
    · exact ih (fun entry member => sound entry (List.mem_cons_of_mem _ member)) found

theorem Setting.compile_eq (s : Setting) (sound : Cache.Sound cache)
    (parsed : Document.parseWith pair text = .ok d) :
    (s.compile text pair cache).1 = .ok d ∧ Cache.Sound (s.compile text pair cache).2 := by
  unfold compile
  split
  · rename_i document hit
    split at hit
    · have same := find_sound sound hit
      rw [parsed] at same
      cases same
      exact ⟨rfl, sound⟩
    · cases hit
  · rw [parsed]
    refine ⟨rfl, fun entry member => ?_⟩
    rcases List.mem_cons.mp member with rfl | member
    · exact parsed
    · exact sound entry member

namespace Document

-- A section whose content has no blank and no line feed outside its tags is read again from its raw
-- text, under its own pair, with the same children. So is what a lambda hands back unchanged.
theorem sections_reparse (parsed : parseWith pair source = .ok d) (words : pair.Words) :
    ∃ sites : List Site, (sites.map Site.node).Perm d.sections ∧ ∀ site ∈ sites,
      (∃ t inside u,
        site.Matched source.toList (Scan.start source.toList pair) t inside u) ∧
      (∃ ahead body text behind, site.Cuts source.toList ahead body text behind) ∧
      (site.Tight source.toList (Scan.start source.toList pair) → ∃ e,
        parseWith site.pair site.raw = .ok e ∧ e.root = site.children ∧
        ∀ (setting : Setting) (cache : Cache), cache.Sound →
          (setting.compile site.raw site.pair cache).1 = .ok e) := by
  have extent := words.clear.hasExtent
  obtain ⟨sites, definitions, perm, distinct, among, -⟩ := sites_of_parsed parsed extent
  refine ⟨sites, perm, fun site member => ?_⟩
  have found := among site member
  have begins := Scan.upto_start source.toList pair
  obtain ⟨t, inside, u, matched⟩ := found.matched distinct
  refine ⟨⟨t, inside, u, matched⟩, matched.cuts begins extent found.reads, fun tight => ?_⟩
  have usable := (parseWith_eq_ok_iff.mp parsed).1
  obtain ⟨e, again, same⟩ := matched.reparse begins words usable found.reads tight
  exact ⟨e, again, same, fun setting cache sound => (setting.compile_eq sound again).1⟩

end Document

namespace Unspaced

def source : String := "\x7b\x7b#a\x7d\x7dx\x7b\x7b<p\x7d\x7dz\x7b\x7b/p\x7d\x7d\x7b\x7b^b\x7d\x7dy\x7b\x7b/b\x7d\x7d\x7b\x7b/a\x7d\x7d"

def inner : Node := .block true "b" [.text "y"] "y" .standard

def outer : Node := .block false "a" [.text "x", inner]
  "x\x7b\x7b<p\x7d\x7dz\x7b\x7b/p\x7d\x7d\x7b\x7b^b\x7d\x7dy\x7b\x7b/b\x7d\x7d" .standard

theorem parsed : Document.parseWith .standard source = .ok ⟨[outer], [("p", [.text "z"])]⟩ := by
  decide +kernel

theorem solid : Solid source.toList := by
  have all : source.toList.all (fun c => !isBlank c && c != '\n') = true := by decide +kernel
  simpa [Solid] using List.all_eq_true.mp all

end Unspaced

open Unspaced in
theorem Document.sections_reparse_nested :
    parseWith .standard source = .ok ⟨[outer], [("p", [.text "z"])]⟩ ∧ Delimiters.standard.Words ∧
      ∃ sites : List Site, (sites.map Site.node).Perm [outer, inner] ∧
        ∀ site ∈ sites, ∃ e, parseWith site.pair site.raw = .ok e ∧ e.root = site.children := by
  obtain ⟨sites, perm, facts⟩ := sections_reparse parsed Delimiters.standard_words
  refine ⟨parsed, Delimiters.standard_words, sites, perm, fun site member => ?_⟩
  obtain ⟨-, -, again⟩ := facts site member
  obtain ⟨e, read, same, -⟩ := again fun before c after whole _ _ _ => solid c (by simp [whole])
  exact ⟨e, read, same⟩

end Mustache
