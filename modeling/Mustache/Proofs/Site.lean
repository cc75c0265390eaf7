import Mustache.Proofs.Balance
import Mustache.Proofs.Run
import Mustache.Proofs.Scope

namespace Mustache
open Text

namespace Node

mutual
def sections : Node → List Node
  | .block inverted key children raw pair =>
    .block inverted key children raw pair :: sectionsAll children
  | _ => []
def sectionsAll : List Node → List Node
  | [] => []
  | node :: rest => node.sections ++ sectionsAll rest
end

end Node

def sectionsOf (definitions : List (String × List Node)) : List Node :=
  definitions.flatMap fun definition => Node.sectionsAll definition.2

theorem sectionsOf_append (earlier later : List (String × List Node)) :
    sectionsOf (earlier ++ later) = sectionsOf earlier ++ sectionsOf later :=
  List.flatMap_append

def Document.sections (d : Document) : List Node := Node.sectionsAll d.root ++ sectionsOf d.partials

def settled (items : List Item) : List Tag := (tagsOf items).filter (!·.isChange)

theorem settled_append (first second : List Item) :
    settled (first ++ second) = settled first ++ settled second := by
  rw [settled, tagsOf_append, List.filter_append, settled, settled]

structure Mark where
  tag : Tag
  span : Tag.Span

namespace Mark

structure Fits (m : Mark) : Prop where
  forward : m.span.start ≤ m.span.stop
  opens : ∀ inverted key start pair, m.tag = .sectionStart inverted key start pair → start = m.span.stop
  ends : ∀ key stop, m.tag = .blockEnd key stop → stop = m.span.start

structure Row (marks : List Mark) : Prop where
  fits : ∀ m ∈ marks, m.Fits
  apart : marks.Pairwise fun one other => one.span.stop ≤ other.span.start

theorem Row.append_iff {earlier later : List Mark} : Row (earlier ++ later) ↔ Row earlier ∧
    Row later ∧ ∀ m ∈ earlier, ∀ n ∈ later, m.span.stop ≤ n.span.start := by
  constructor
  · rintro ⟨fits, apart⟩
    obtain ⟨left, right, across⟩ := List.pairwise_append.mp apart
    exact ⟨⟨fun m member => fits m (List.mem_append_left _ member), left⟩,
      ⟨fun m member => fits m (List.mem_append_right _ member), right⟩, across⟩
  · rintro ⟨one, two, across⟩
    refine ⟨fun m member => ?_, List.pairwise_append.mpr ⟨one.apart, two.apart, across⟩⟩
    rcases List.mem_append.mp member with member | member
    · exact one.fits m member
    · exact two.fits m member

theorem Row.nil : Row [] := ⟨by simp, .nil⟩

theorem Row.single (fits : Fits m) : Row [m] := ⟨by simpa using fits, List.pairwise_singleton _ _⟩

theorem Row.tail (row : Row (m :: marks)) : Row marks :=
  ⟨fun n member => row.fits n (List.mem_cons_of_mem _ member), (List.pairwise_cons.mp row.apart).2⟩

structure Block (opener closer : Mark) (inside later : List Mark) : Prop where
  opens : opener.Fits
  closes : closer.Fits
  inner : Row inside
  rest : Row later
  within : ∀ m ∈ inside, opener.span.stop ≤ m.span.start ∧ m.span.stop ≤ closer.span.start
  behind : ∀ m ∈ later, closer.span.stop ≤ m.span.start
  apart : ∀ m ∈ inside, ∀ n ∈ later, m.span.stop ≤ n.span.start

theorem Row.block (row : Row (opener :: (inside ++ closer :: later))) :
    Block opener closer inside later := by
  obtain ⟨first, -⟩ := List.pairwise_cons.mp row.apart
  obtain ⟨left, right, across⟩ := Row.append_iff.mp row.tail
  refine ⟨row.fits opener (by simp), right.fits closer (by simp), left, right.tail, ?_, ?_, ?_⟩
  · exact fun m member => ⟨first m (by simp [member]), across m member closer (by simp)⟩
  · exact (List.pairwise_cons.mp right.apart).1
  · exact fun m member n other => across m member n (by simp [other])

end Mark

-- A section of a document with its place in the source: its open tag stands from `start` up to
-- `content`, and its end tag begins at `stop`.
structure Site where
  inverted : Bool
  key : String
  children : List Node
  raw : String
  pair : Delimiters
  start : Nat
  content : Nat
  stop : Nat

namespace Site

def node (site : Site) : Node := .block site.inverted site.key site.children site.raw site.pair

def Apart (x y : Site) : Prop := x.stop ≤ y.start ∨ y.stop ≤ x.start ∨
  x.content ≤ y.start ∧ y.stop ≤ x.stop ∨ y.content ≤ x.start ∧ x.stop ≤ y.stop

-- The tags of a section among the marks, with a balanced stream between them.
inductive Among (source : List Char) (marks : List Mark) (definitions : List (String × List Node))
    (site : Site) : Prop where
  | between (parts : marks = before ++ opener :: (inside ++ closer :: after))
      (opens : opener.tag = .sectionStart site.inverted site.key site.content site.pair)
      (starts : opener.span.start = site.start) (ends : closer.tag = .blockEnd site.key site.stop)
      (inner : Balanced source (inside.map Mark.tag) site.children within)
      (part : within <:+: definitions) (reads : RawText source site.content site.stop site.raw) :
      Among source marks definitions site

theorem Among.reads (among : Among source marks definitions site) :
    RawText source site.content site.stop site.raw := by
  cases among
  assumption

theorem Among.wider (among : Among source marks definitions site) (before after : List Mark)
    (part : definitions <:+: more) : Among source (before ++ marks ++ after) more site := by
  obtain @⟨ahead, opener, inside, closer, behind, within, parts, opens, starts, ends, inner,
    listed, reads⟩ := among
  have whole : before ++ marks ++ after =
      (before ++ ahead) ++ opener :: (inside ++ closer :: (behind ++ after)) := by
    rw [parts]
    simp
  exact .between whole opens starts ends inner (listed.trans part) reads

theorem Among.bounds (among : Among source marks definitions site) (row : Mark.Row marks) :
    (∃ m ∈ marks, m.span.start = site.start) ∧ ∃ m ∈ marks, site.stop ≤ m.span.stop := by
  obtain @⟨ahead, opener, inside, closer, behind, within, rfl, opens, starts, ends, -⟩ := among
  have member : closer ∈ ahead ++ opener :: (inside ++ closer :: behind) := by simp
  have fits := row.fits closer member
  have stop := fits.ends _ _ ends
  exact ⟨⟨opener, by simp, starts⟩, ⟨closer, member, by rw [stop]; exact fits.forward⟩⟩

theorem Among.apart (one : Among source marks definitions x) (row : Mark.Row marks)
    (other : Among source more definitions' y) (row' : Mark.Row more)
    (order : ∀ m ∈ marks, ∀ n ∈ more, m.span.stop ≤ n.span.start) : Apart x y := by
  obtain ⟨-, m, member, stop⟩ := one.bounds row
  obtain ⟨⟨n, member', start⟩, -⟩ := other.bounds row'
  have between := order m member n member'
  exact Or.inl (by omega)

theorem Among.apart_inside (among : Among source inside definitions x)
    (block : Mark.Block opener closer inside later) (content : site.content = opener.span.stop)
    (stop : site.stop = closer.span.start) : Apart site x := by
  obtain ⟨⟨m, member, starts⟩, n, other, stops⟩ := among.bounds block.inner
  have after := (block.within m member).1
  have before := (block.within n other).2
  exact Or.inr (Or.inr (Or.inl ⟨by omega, by omega⟩))

theorem Among.apart_behind (among : Among source later definitions y)
    (block : Mark.Block opener closer inside later) (stop : site.stop = closer.span.start) :
    Apart site y := by
  obtain ⟨⟨m, member, starts⟩, -⟩ := among.bounds block.rest
  have after := block.behind m member
  have forward := block.closes.forward
  exact Or.inl (by omega)

theorem Among.beside {xs ys : List Site}
    (row : Mark.Row (opener :: (middle ++ closer :: rest)))
    (innerAmong : ∀ x ∈ xs, Among source middle within x) (innerApart : xs.Pairwise Apart)
    (laterAmong : ∀ y ∈ ys, Among source rest definitions y) (laterApart : ys.Pairwise Apart)
    (one : within <:+: listed) (other : definitions <:+: listed) :
    (∀ site ∈ xs ++ ys, Among source (opener :: (middle ++ closer :: rest)) listed site) ∧
      (xs ++ ys).Pairwise Apart := by
  have block := row.block
  refine ⟨fun site member => ?_, List.pairwise_append.mpr ⟨innerApart, laterApart, ?_⟩⟩
  · rcases List.mem_append.mp member with member | member
    · simpa using (innerAmong site member).wider [opener] (closer :: rest) one
    · simpa using (laterAmong site member).wider (opener :: (middle ++ [closer])) [] other
  · intro x here y there
    exact (innerAmong x here).apart block.inner (laterAmong y there) block.rest block.apart

end Site

theorem perm_interchange (a b c d : List α) : (a ++ b ++ (c ++ d)).Perm (a ++ c ++ (b ++ d)) := by
  rw [List.append_assoc, List.append_assoc]
  exact (List.perm_append_comm_assoc b c d).append_left a

open Site in
theorem Balanced.sites (balanced : Balanced source tags nodes definitions) (marks : List Mark)
    (same : marks.map Mark.tag = tags) (row : Mark.Row marks) : ∃ sites : List Site,
      (sites.map Site.node).Perm (Node.sectionsAll nodes ++ sectionsOf definitions) ∧
      (∀ site ∈ sites, Among source marks definitions site) ∧ sites.Pairwise Apart := by
  induction balanced generalizing marks with
  | nil => exact ⟨[], .nil, by simp, .nil⟩
  | text later ih | interpolation later ih | reference later ih =>
    obtain ⟨m, rest, rfl, -, same⟩ := List.map_eq_cons_iff.mp same
    obtain ⟨sites, perm, among, apart⟩ := ih rest same row.tail
    refine ⟨sites, perm, fun site member => ?_, apart⟩
    simpa using (among site member).wider [m] [] List.infix_rfl
  | @content inside children within start stop raw tags nodes definitions inverted key pair inner
      reads later innerSites laterSites =>
    obtain ⟨opener, rest, rfl, opens, same⟩ := List.map_eq_cons_iff.mp same
    obtain ⟨middle, rest, rfl, innerTags, same⟩ := List.map_eq_append_iff.mp same
    obtain ⟨closer, rest, rfl, ends, laterTags⟩ := List.map_eq_cons_iff.mp same
    have block := row.block
    obtain ⟨xs, innerPerm, innerAmong, innerApart⟩ := innerSites middle innerTags block.inner
    obtain ⟨ys, laterPerm, laterAmong, laterApart⟩ := laterSites rest laterTags block.rest
    have content := block.opens.opens _ _ _ _ opens
    have stops := block.closes.ends _ _ ends
    obtain ⟨among, apart⟩ := Among.beside row innerAmong innerApart laterAmong laterApart
      (List.prefix_append _ definitions).isInfix (List.suffix_append within _).isInfix
    refine ⟨⟨inverted, key, children, raw, pair, opener.span.start, start, stop⟩ :: (xs ++ ys),
      ?_, ?_, List.pairwise_cons.mpr ⟨?_, apart⟩⟩
    · rw [List.map_cons, List.map_append, sectionsOf_append]
      exact ((innerPerm.append laterPerm).trans (perm_interchange _ _ _ _)).cons _
    · intro site member
      rcases List.mem_cons.mp member with rfl | member
      · exact .between (List.nil_append _).symm opens rfl ends (innerTags ▸ inner)
          (List.prefix_append _ _).isInfix reads
      · exact among site member
    · intro x member
      rcases List.mem_append.mp member with member | member
      · exact (innerAmong x member).apart_inside block content stops
      · exact (laterAmong x member).apart_behind block stops
  | @definition inside children within tags nodes definitions key stop inner later innerSites
      laterSites =>
    obtain ⟨opener, rest, rfl, opens, same⟩ := List.map_eq_cons_iff.mp same
    obtain ⟨middle, rest, rfl, innerTags, same⟩ := List.map_eq_append_iff.mp same
    obtain ⟨closer, rest, rfl, ends, laterTags⟩ := List.map_eq_cons_iff.mp same
    have block := row.block
    obtain ⟨xs, innerPerm, innerAmong, innerApart⟩ := innerSites middle innerTags block.inner
    obtain ⟨ys, laterPerm, laterAmong, laterApart⟩ := laterSites rest laterTags block.rest
    refine ⟨xs ++ ys, ?_, Among.beside row innerAmong innerApart laterAmong laterApart
      (List.prefix_append _ _).isInfix
      ((List.suffix_cons _ _).trans (List.suffix_append within _)).isInfix⟩
    have swapped := (innerPerm.trans List.perm_append_comm).append laterPerm
    rw [List.map_append, sectionsOf_append]
    exact (swapped.trans (List.perm_append_comm_assoc _ _ _)).trans
      (.of_eq (by rw [List.append_assoc]; rfl))

end Mustache
