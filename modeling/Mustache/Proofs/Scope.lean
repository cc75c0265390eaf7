import Mathlib.Control.Monad.Basic
import Mustache.Proofs.Balance
import Mustache.Proofs.Calls

namespace Mustache
open Text

structure Scope where
  active : Delimiters
  blocks : List BlockKind
deriving DecidableEq, Repr

namespace Scope

-- An end tag closes the innermost block, whatever key it has. Where that is a definition the pair
-- is the standard one again, not the pair from before the definition.
def after (scope : Scope) : Tag → Scope
  | .sectionStart .. => { scope with blocks := .content :: scope.blocks }
  | .definitionStart _ => { scope with blocks := .definition :: scope.blocks }
  | .blockEnd .. =>
    match scope.blocks with
    | [] => scope
    | .content :: outer => { scope with blocks := outer }
    | .definition :: outer => ⟨.standard, outer⟩
  | .delimiterChange pair => { scope with active := pair }
  | _ => scope

def afterAll (scope : Scope) (tags : List Tag) : Scope := tags.foldl after scope

def of (pair : Delimiters) (tags : List Tag) : Scope := afterAll ⟨pair, []⟩ tags

theorem afterAll_append (scope : Scope) (first second : List Tag) :
    scope.afterAll (first ++ second) = (scope.afterAll first).afterAll second :=
  List.foldl_append

def Recorded (scope : Scope) : List Tag → Prop
  | [] => True
  | tag :: tags =>
    (∀ inverted key start pair, tag = .sectionStart inverted key start pair → pair = scope.active) ∧
      (scope.after tag).Recorded tags

theorem Recorded.append (first : Recorded scope tags)
    (second : (scope.afterAll tags).Recorded more) : scope.Recorded (tags ++ more) := by
  induction tags generalizing scope with
  | nil => exact second
  | cons tag tags ih => exact ⟨first.1, ih first.2 second⟩

theorem Recorded.pair_eq (recorded : Recorded scope tags)
    (split : tags = earlier ++ .sectionStart inverted key start pair :: later) :
    pair = (scope.afterAll earlier).active := by
  subst split
  induction earlier generalizing scope with
  | nil => exact recorded.1 inverted key start pair rfl
  | cons tag earlier ih => exact ih recorded.2

end Scope

def Scan.scope (s : Scan) : Scope := ⟨s.active, s.blocks⟩

def tagsOf (items : List Item) : List Tag := items.filterMap Except.toOption

theorem tagsOf_ok (tag : Tag) (items : List Item) : tagsOf (.ok tag :: items) = tag :: tagsOf items :=
  rfl

theorem tagsOf_append (first second : List Item) :
    tagsOf (first ++ second) = tagsOf first ++ tagsOf second :=
  List.filterMap_append

namespace Stretch

theorem tagsOf_yielded (t : Stretch) : tagsOf (Scan.yielded t.kept t.tag) =
    (if t.kept.isEmpty then [] else [.text (String.ofList t.kept)]) ++ t.tag.toList := by
  unfold Scan.yielded
  cases t.kept.isEmpty <;> cases t.tag <;> rfl

theorem next_scope (t : Stretch) : t.next.scope = t.scan.scope.afterAll t.tag.toList := by
  unfold Scan.scope next activeAfter closesDefinition blocksAfter Scope.afterAll
  cases found : t.tag with
  | none => rfl
  | some tag =>
    cases tag with
    | blockEnd key stop =>
      rcases t.scan.blocks with _ | ⟨_ | _, outer⟩ <;> rfl
    | _ => rfl

theorem recorded (t : Stretch) : t.scan.scope.Recorded t.tag.toList := by
  cases found : t.tag with
  | none => exact trivial
  | some tag =>
    refine ⟨?_, trivial⟩
    rintro inverted key start pair rfl
    rw [t.tag_eq] at found
    exact (Tag.ofBody_sectionStart found).2

theorem scope_of_yielded (t : Stretch) :
    t.next.scope = t.scan.scope.afterAll (tagsOf (Scan.yielded t.kept t.tag)) := by
  rw [tagsOf_yielded, Scope.afterAll_append, next_scope]
  cases t.kept.isEmpty <;> rfl

theorem recorded_yielded (t : Stretch) :
    t.scan.scope.Recorded (tagsOf (Scan.yielded t.kept t.tag)) := by
  rw [tagsOf_yielded]
  cases t.kept.isEmpty with
  | true => exact t.recorded
  | false => exact ⟨nofun, t.recorded⟩

end Stretch

namespace Scan

theorem scope_of_ending (s : Scan) (scope : Scope) : scope.Recorded (tagsOf s.ending) ∧
    scope.afterAll (tagsOf s.ending) = scope := by
  unfold ending
  cases s.round with
  | trailing text next => exact ⟨⟨nofun, trivial⟩, rfl⟩
  | _ => exact ⟨trivial, rfl⟩

theorem recorded_items (s : Scan) (extent : s.active.HasExtent) (fresh : s.waiting = none) :
    s.scope.Recorded (tagsOf s.items) := by
  induction s, extent using stretch_induction with
  | ended s extent ended =>
    rw [items_of_none ended fresh]
    exact (s.scope_of_ending s.scope).1
  | step s t extent later met ih =>
    obtain ⟨rfl, -⟩ := stretch_sound met
    have rest := ih rfl
    rw [t.scope_of_yielded] at rest
    rw [items_of_some met extent fresh, tagsOf_append]
    exact t.recorded_yielded.append rest

def met (items : List Item) (reached : Scan) : List Tag := tagsOf items ++ reached.waiting.toList

theorem Hands.scope (hands : Hands s item next) : ∃ tags, met [item] next = s.waiting.toList ++ tags ∧
    next.scope = s.scope.afterAll tags := by
  induction hands with
  | @waiting tag s held =>
    refine ⟨[], ?_, rfl⟩
    rw [held]
    rfl
  | @ending s item fresh ended left =>
    have waits : s.atEnd.waiting = none := fresh
    refine ⟨tagsOf [item], ?_, ?_⟩
    · rw [met, waits, fresh]
      exact List.append_nil _
    · rw [← left, (s.scope_of_ending s.scope).2]
      rfl
  | @text s t fresh found full =>
    refine ⟨tagsOf (yielded t.kept t.tag), ?_, ?_⟩
    · rw [fresh, t.tagsOf_yielded, full]
      rfl
    · rw [← (stretch_sound found).1]
      exact t.scope_of_yielded
  | @tag s t tag fresh found empty named =>
    refine ⟨tagsOf (yielded t.kept t.tag), ?_, ?_⟩
    · rw [fresh, t.tagsOf_yielded, empty, named]
      rfl
    · rw [← (stretch_sound found).1]
      exact t.scope_of_yielded
  | @silent s t item next fresh found empty named later ih =>
    -- A comment, or a change to no usable pair, leaves the scope as it was.
    obtain ⟨tags, same, reached⟩ := ih
    refine ⟨tags, ?_, ?_⟩
    · rw [fresh]
      exact same
    · rw [reached, t.next_scope, named, (stretch_sound found).1]
      rfl

theorem met_cons (item : Item) (items : List Item) (reached : Scan) :
    met (item :: items) reached = tagsOf [item] ++ met items reached := by
  rw [met, met, ← List.append_assoc, ← tagsOf_append]
  rfl

theorem Calls.scope (calls : Calls s taken reached) (extent : s.active.HasExtent) : ∃ tags,
    met taken reached = s.waiting.toList ++ tags ∧ reached.scope = s.scope.afterAll tags := by
  induction calls with
  | @none s => exact ⟨[], by rw [List.append_nil]; rfl, rfl⟩
  | @next item next taken reached s called later ih =>
    have hands := hands_of_next s extent called
    obtain ⟨first, one, moved⟩ := hands.scope
    obtain ⟨rest, more, reaches⟩ := ih (hands.items_eq extent).1
    refine ⟨first ++ rest, ?_, ?_⟩
    · rw [met_cons, more, ← List.append_assoc, ← List.append_assoc, ← one]
      rfl
    · rw [reaches, moved, Scope.afterAll_append]

end Scan

def BlockRole.kind : BlockRole → BlockKind
  | .content .. => .content
  | .definition => .definition

namespace Assembly
variable {items : List Item} {a b : Assembly}

def kinds (a : Assembly) : List BlockKind := a.blocks.map (·.role.kind)

theorem add_kinds (a : Assembly) (node : Node) : (a.add node).kinds = a.kinds := by
  unfold add kinds
  cases a.blocks <;> rfl

-- An assembly opens and closes its blocks as the scan does, whose scope knows no keys.
theorem feed_kinds (fed : feed source a (.ok tag) = .ok b) (scope : Scope)
    (same : scope.blocks = a.kinds) : (scope.after tag).blocks = b.kinds := by
  cases tag with
  | text _ | interpolation _ _ | reference _ _ => cases fed; exact same.trans (a.add_kinds _).symm
  | sectionStart _ _ _ _ | definitionStart _ => cases fed; exact congrArg _ same
  | delimiterChange pair => cases fed; exact same
  | blockEnd key stop =>
    cases leave_eq_ok_iff.mp fed with
    | content =>
      simp only [Scope.after, same, add_kinds]
      rfl
    | definition =>
      simp only [Scope.after, same]
      rfl

theorem feedAll_kinds (fed : items.foldlM (feed source) a = .ok b) (scope : Scope)
    (same : scope.blocks = a.kinds) : (scope.afterAll (tagsOf items)).blocks = b.kinds := by
  induction items generalizing a scope with
  | nil => cases fed; exact same
  | cons item items ih =>
    cases item with
    | error fault => cases fed
    | ok tag =>
      obtain ⟨next, first, rest⟩ := feed_cons_iff.mp fed
      exact ih rest _ (feed_kinds first scope same)

theorem feed_keeps (fed : feed source a item = .ok b)
    (found : a.partials.get? key = some children) : b.partials.get? key = some children := by
  cases item with
  | error fault => cases fed
  | ok tag =>
    cases tag with
    | text _ | interpolation _ _ | reference _ _ => cases fed; rw [add_partials]; exact found
    | sectionStart _ _ _ _ | definitionStart _ | delimiterChange _ => cases fed; exact found
    | blockEnd own stop =>
      cases leave_eq_ok_iff.mp fed with
      | content => rw [add_partials]; exact found
      | definition fresh =>
        rw [Entries.get_insert_of_ne]
        · exact found
        · rintro rfl
          rw [found] at fresh
          cases fresh

theorem feedAll_keeps (fed : items.foldlM (feed source) a = .ok b)
    (found : a.partials.get? key = some children) : b.partials.get? key = some children := by
  induction items generalizing a with
  | nil => cases fed; exact found
  | cons item items ih =>
    obtain ⟨next, first, rest⟩ := feed_cons_iff.mp fed
    exact ih rest (feed_keeps first found)

end Assembly

-- The end tag behind some items closes a block that becomes an entry of the partials, which has
-- none under its key so far.
inductive Registers (source : List Char) (earlier : List Item) (key : String) (stop : Nat)
    (d : Document) : Prop where
  | entry (fed : earlier.foldlM (Assembly.feed source) Assembly.empty = .ok a)
      (left : a.leave source key stop = .ok b) (fresh : a.partials.get? key = none)
      (added : b.partials = a.partials.insert key children)
      (kept : d.partials.get? key = some children) : Registers source earlier key stop d

namespace Document

theorem registers_iff (pair : Delimiters)
    (built : ofItems source (earlier ++ .ok (.blockEnd key stop) :: later) = .ok d) :
    (Scope.of pair (tagsOf earlier)).blocks.head? = some .definition ↔
      Registers source earlier key stop d := by
  obtain ⟨last, fed, -, rfl⟩ := ofItems_eq_ok_iff.mp built
  obtain ⟨a, before, fed⟩ := Assembly.feed_append_iff.mp fed
  obtain ⟨b, left, after⟩ := Assembly.feed_cons_iff.mp fed
  rw [Scope.of, Assembly.feedAll_kinds before ⟨pair, []⟩ rfl]
  constructor
  · intro innermost
    cases Assembly.leave_eq_ok_iff.mp left with
    | content => cases innermost
    | definition fresh =>
      exact .entry before left fresh rfl (Assembly.feedAll_keeps after (Entries.get_insert_self _ _ _))
  · rintro ⟨fed, left, fresh, added, -⟩
    rw [before] at fed
    cases fed
    cases Assembly.leave_eq_ok_iff.mp left with
    | definition => rfl
    | content =>
      rw [Assembly.add_partials] at added
      dsimp only at added fresh
      rw [added, Entries.get_insert_self] at fresh
      cases fresh

end Document

namespace Scan

-- The pair in force and the open blocks of a scan are at each point what the tags make them that it
-- has come upon. A section keeps the pair in force where it opens. In a stream that makes a document
-- the end tags that bring the standard pair back are those that make its partials.
theorem scope_of_tags (started : start? source pair = .ok s) (extent : pair.HasExtent) :
    (∀ taken reached, Calls s taken reached →
      s.items = taken ++ reached.items ∧ reached.scope = Scope.of pair (met taken reached)) ∧
    (∀ earlier inverted key start recorded later,
      s.items = earlier ++ .ok (.sectionStart inverted key start recorded) :: later →
        recorded = (Scope.of pair (tagsOf earlier)).active) ∧
    ∀ d, Document.ofItems source.toList s.items = .ok d → ∀ earlier key stop later,
      s.items = earlier ++ .ok (.blockEnd key stop) :: later →
        ((Scope.of pair (tagsOf earlier)).blocks.head? = some .definition ↔
          Registers source.toList earlier key stop d) := by
  obtain ⟨-, rfl⟩ := start_eq_ok_iff.mp started
  refine ⟨fun taken reached calls => ?_, ?_, ?_⟩
  · obtain ⟨tags, same, reaches⟩ := calls.scope extent
    refine ⟨(calls.items_eq extent).2, ?_⟩
    rw [reaches, same]
    rfl
  · intro earlier inverted key start recorded later split
    have all := recorded_items (Scan.start source.toList pair) extent rfl
    rw [split, tagsOf_append, tagsOf_ok] at all
    exact all.pair_eq rfl
  · intro d built earlier key stop later split
    rw [split] at built
    exact Document.registers_iff pair built

end Scan

namespace BarsInside

def source : String :=
  "\x7b\x7b<p\x7d\x7d\x7b\x7b=| |=\x7d\x7d|#s|x|/s||/p|\x7b\x7b^t\x7d\x7d\x7b\x7b/t\x7d\x7d"

def scan : Scan := Scan.start source.toList .standard

def bars : Delimiters := ⟨"|", "|"⟩

def document : Document :=
  ⟨[.block true "t" [] "" .standard], [("p", [.block false "s" [.text "x"] "x" bars])]⟩

def changed : List Item := [.ok (.definitionStart "p"), .ok (.delimiterChange bars)]

def opened : List Item := changed ++ [.ok (.sectionStart false "s" 19 bars), .ok (.text "x")]

def filled : List Item := opened ++ [.ok (.blockEnd "s" 20)]

def inside (offset : Nat) (active : Delimiters) (blocks : List BlockKind) (waiting : Option Tag) : Scan :=
  ⟨source.toList.drop offset, offset, active, blocks, false, waiting⟩

def waiting : Scan := inside 24 bars [.definition] (some (.blockEnd "s" 20))

theorem calls : Scan.Calls scan opened waiting := by
  have first : scan.next? =
      some (.ok (.definitionStart "p"), inside 6 .standard [.definition] none) := by decide +kernel
  have second : (inside 6 .standard [.definition] none).next? =
      some (.ok (.delimiterChange bars), inside 15 bars [.definition] none) := by decide +kernel
  have third : (inside 15 bars [.definition] none).next? =
      some (.ok (.sectionStart false "s" 19 bars), inside 19 bars [.content, .definition] none) := by
    decide +kernel
  have fourth : (inside 19 bars [.content, .definition] none).next? =
      some (.ok (.text "x"), waiting) := by decide +kernel
  exact .next first (.next second (.next third (.next fourth .none)))

theorem items_eq : scan.items = filled ++ [.ok (.blockEnd "p" 24),
    .ok (.sectionStart true "t" 34 .standard), .ok (.blockEnd "t" 34)] := by decide +kernel

theorem built : Document.ofItems source.toList scan.items = .ok document := by
  rw [items_eq]
  decide +kernel

end BarsInside

open BarsInside in
theorem scope_of_tags_bars : Scan.start? source .standard = .ok scan ∧
    Delimiters.standard.HasExtent ∧ Scan.Calls scan opened waiting ∧
    waiting.scope = Scope.of .standard (tagsOf opened ++ [.blockEnd "s" 20]) ∧
    bars = (Scope.of .standard (tagsOf changed)).active ∧
    ((Scope.of .standard (tagsOf filled)).blocks.head? = some .definition ↔
      Registers source.toList filled "p" 24 document) := by
  have begun := Scan.start_standard source
  have extent := Delimiters.standard_words.clear.hasExtent
  obtain ⟨reached, recorded, registered⟩ := Scan.scope_of_tags begun extent
  exact ⟨begun, extent, calls, (reached opened waiting calls).2,
    recorded changed false "s" 19 bars _ items_eq,
    registered document built filled "p" 24 _ items_eq⟩

end Mustache
