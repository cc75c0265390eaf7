import Mathlib.Data.List.Forall2
import Mustache.Proofs.Scope

namespace Mustache

-- What there is to know of a stream when its faults are looked for: the open blocks, innermost
-- first, and the keys of the definitions that are closed, at whatever depth they stand.
structure Ledger where
  blocks : List (String × BlockKind)
  closed : List String
deriving DecidableEq, Repr

namespace Ledger

def after (l : Ledger) : Tag → Ledger
  | .sectionStart _ key _ _ => { l with blocks := (key, .content) :: l.blocks }
  | .definitionStart key => { l with blocks := (key, .definition) :: l.blocks }
  | .blockEnd .. =>
    match l.blocks with
    | [] => l
    | (_, .content) :: outer => { l with blocks := outer }
    | (key, .definition) :: outer => ⟨outer, key :: l.closed⟩
  | _ => l

def afterAll (l : Ledger) (tags : List Tag) : Ledger := tags.foldl after l

def of (tags : List Tag) : Ledger := afterAll ⟨[], []⟩ tags

def openKeys (l : Ledger) : List String := l.blocks.reverse.map Prod.fst

theorem after_blockEnd {l : Ledger} (shape : l.blocks = block :: outer) (key : String) (stop : Nat) :
    (l.after (.blockEnd key stop)).blocks = outer := by
  obtain ⟨own, kind⟩ := block
  unfold after
  rw [shape]
  cases kind <;> rfl

inductive Faults (l : Ledger) : Item → ParseError → Prop where
  | scan : Faults l (.error fault) fault
  | unexpected (outside : l.blocks = []) : Faults l (.ok (.blockEnd key stop)) (.unexpectedEnd key)
  | mismatched (innermost : l.blocks = (own, kind) :: outer) (other : own ≠ key) :
      Faults l (.ok (.blockEnd key stop)) (.mismatchedEnd own key)
  | duplicate (innermost : l.blocks = (key, .definition) :: outer) (known : key ∈ l.closed) :
      Faults l (.ok (.blockEnd key stop)) (.duplicatePartial key)

def EndsBlock (key : String) (item : Item) : Prop := ∃ stop, item = .ok (.blockEnd key stop)

-- An assembly has the blocks open that the ledger lists, and an entry for each closed definition.
structure Tracks (l : Ledger) (a : Assembly) : Prop where
  blocks : l.blocks = a.blocks.map fun block => (block.key, block.role.kind)
  closed : ∀ key, key ∈ l.closed ↔ a.partials.get? key ≠ none

namespace Tracks
variable {l : Ledger} {a b : Assembly} {items : List Item}

theorem empty : Tracks ⟨[], []⟩ Assembly.empty := ⟨rfl, by simp [Assembly.empty, Entries.get?]⟩

theorem add (tracks : Tracks l a) (node : Node) : Tracks l (a.add node) := by
  refine ⟨?_, ?_⟩
  · rw [tracks.blocks]
    unfold Assembly.add
    cases a.blocks <;> rfl
  · intro key
    rw [a.add_partials]
    exact tracks.closed key

theorem leave_error (tracks : Tracks l a) (failed : a.leave source key stop = .error fault) :
    l.Faults (.ok (.blockEnd key stop)) fault := by
  obtain ⟨root, blocks, partials⟩ := a
  unfold Assembly.leave at failed
  dsimp only at failed
  split at failed
  · cases failed
    exact .unexpected tracks.blocks
  · rename_i block outer
    obtain ⟨own, role, children⟩ := block
    split at failed
    · rename_i same
      subst same
      cases role with
      | content inverted start pair => cases failed
      | definition =>
        dsimp only at failed
        split at failed
        · rename_i found
          cases failed
          have known : own ∈ l.closed := (tracks.closed own).mpr (by simp [found])
          exact .duplicate tracks.blocks known
        · cases failed
    · rename_i other
      cases failed
      exact .mismatched tracks.blocks other

theorem leave_of_faults (tracks : Tracks l a) (faults : l.Faults (.ok (.blockEnd key stop)) fault) :
    a.leave source key stop = .error fault := by
  cases faults with
  | unexpected outside =>
    have none : a.blocks = [] := List.map_eq_nil_iff.mp (tracks.blocks.symm.trans outside)
    rw [Assembly.leave, none]
  | mismatched innermost other =>
    obtain ⟨block, outer, shape, named, -⟩ :=
      List.map_eq_cons_iff.mp (tracks.blocks.symm.trans innermost)
    cases named
    simp only [Assembly.leave, shape, if_neg other]
  | duplicate innermost known =>
    obtain ⟨⟨own, role, children⟩, outer, shape, named, -⟩ :=
      List.map_eq_cons_iff.mp (tracks.blocks.symm.trans innermost)
    cases role with
    | content inverted start pair => cases named
    | definition =>
      cases named
      obtain ⟨entry, found⟩ := Option.ne_none_iff_exists'.mp ((tracks.closed own).mp known)
      simp only [Assembly.leave, shape, if_true, found]

theorem feed_error_iff (tracks : Tracks l a) : a.feed source item = .error fault ↔
    l.Faults item fault := by
  constructor
  · intro failed
    rcases item with own | tag
    · cases failed
      exact .scan
    · cases tag with
      | blockEnd key stop => exact tracks.leave_error failed
      | _ => cases failed
  · intro faults
    rcases item with own | tag
    · cases faults
      rfl
    · cases tag with
      | blockEnd key stop => exact tracks.leave_of_faults faults
      | _ => cases faults

theorem leave (tracks : Tracks l a) (left : a.leave source key stop = .ok b) :
    Tracks (l.after (.blockEnd key stop)) b := by
  obtain ⟨listed, known⟩ := l
  obtain ⟨same, closed⟩ := tracks
  cases Assembly.leave_eq_ok_iff.mp left with
  | content =>
    dsimp only at same
    subst same
    apply add
    exact ⟨rfl, closed⟩
  | definition fresh =>
    dsimp only at same
    subst same
    refine ⟨rfl, ?_⟩
    intro other
    by_cases own : other = key
    · subst own
      simp [after, BlockRole.kind, Entries.get_insert_self]
    · have apart : key ≠ other := fun same => own same.symm
      rw [Entries.get_insert_of_ne apart]
      refine Iff.trans ?_ (closed other)
      simp [after, BlockRole.kind, own]

theorem feed (tracks : Tracks l a) (fed : Assembly.feed source a (.ok tag) = .ok b) :
    Tracks (l.after tag) b := by
  cases tag with
  | text _ | interpolation _ _ | reference _ _ =>
    cases fed
    exact tracks.add _
  | sectionStart _ _ _ _ | definitionStart _ =>
    cases fed
    exact ⟨congrArg _ tracks.blocks, tracks.closed⟩
  | delimiterChange pair =>
    cases fed
    exact tracks
  | blockEnd key stop => exact tracks.leave fed

theorem feedAll (tracks : Tracks l a) (fed : items.foldlM (Assembly.feed source) a = .ok b) :
    Tracks (l.afterAll (tagsOf items)) b := by
  induction items generalizing l a with
  | nil => cases fed; exact tracks
  | cons item items ih =>
    cases item with
    | error fault => cases fed
    | ok tag =>
      obtain ⟨next, first, rest⟩ := Assembly.feed_cons_iff.mp fed
      exact ih (tracks.feed first) rest

-- Whatever else the ends of all open blocks find, the block that each one ends is its own. So the
-- one fault left to them is a definition that is there already.
theorem feedAll_ends (tracks : Tracks l a)
    (ends : List.Forall₂ EndsBlock (l.blocks.map Prod.fst) items) :
    (∃ b, items.foldlM (Assembly.feed source) a = .ok b ∧ b.blocks = []) ∨
      ∃ key, items.foldlM (Assembly.feed source) a = .error (.duplicatePartial key) := by
  generalize shape : l.blocks = blocks at ends
  induction blocks generalizing l a items with
  | nil =>
    cases ends
    have none : a.blocks = [] := List.map_eq_nil_iff.mp (tracks.blocks.symm.trans shape)
    exact Or.inl ⟨a, rfl, none⟩
  | cons block outer ih =>
    obtain ⟨key, kind⟩ := block
    cases ends with
    | @cons _ item _ items first rest =>
      obtain ⟨stop, rfl⟩ := first
      cases fed : a.feed source (.ok (.blockEnd key stop)) with
      | ok next =>
        have left := after_blockEnd shape key stop
        rcases ih (tracks.feed fed) left rest with ⟨b, taken, closed⟩ | ⟨other, failed⟩
        · exact Or.inl ⟨b, by rw [Assembly.feed_cons _ fed, taken], closed⟩
        · exact Or.inr ⟨other, by rw [Assembly.feed_cons _ fed, failed]⟩
      | error fault =>
        have faults := tracks.feed_error_iff.mp fed
        rw [List.foldlM_cons, fed]
        cases faults with
        | unexpected outside => cases shape.symm.trans outside
        | mismatched innermost other =>
          cases shape.symm.trans innermost
          exact absurd rfl other
        | duplicate innermost known => exact Or.inr ⟨key, rfl⟩

end Tracks
end Ledger

open Ledger

def Faultless (items : List Item) : Prop := ∀ earlier item later, items = earlier ++ item :: later →
  ∀ fault, ¬ (Ledger.of (tagsOf earlier)).Faults item fault

theorem Faultless.of_append (faultless : Faultless (first ++ second)) : Faultless first := by
  intro earlier item later split
  apply faultless earlier item (later ++ second)
  rw [split, List.append_assoc, List.cons_append]

theorem Assembly.feedAll_error (failed : List.foldlM (feed source) a items = .error fault) :
    ∃ earlier culprit later b, items = earlier ++ culprit :: later ∧
      earlier.foldlM (feed source) a = .ok b ∧ b.feed source culprit = .error fault := by
  induction items generalizing a with
  | nil => cases failed
  | cons item items ih =>
    cases fed : feed source a item with
    | error own =>
      rw [List.foldlM_cons, fed] at failed
      cases failed
      exact ⟨[], item, items, a, rfl, rfl, fed⟩
    | ok next =>
      rw [feed_cons item fed] at failed
      obtain ⟨earlier, culprit, later, b, split, ahead, stuck⟩ := ih failed
      refine ⟨item :: earlier, culprit, later, b, by rw [split]; rfl, ?_, stuck⟩
      rw [feed_cons item fed]
      exact ahead

theorem Faultless.taken_iff (source : List Char) : Faultless items ↔
    ∃ a, items.foldlM (Assembly.feed source) Assembly.empty = .ok a := by
  constructor
  · intro faultless
    cases fed : items.foldlM (Assembly.feed source) Assembly.empty with
    | ok a => exact ⟨a, rfl⟩
    | error fault =>
      obtain ⟨earlier, culprit, later, b, split, ahead, stuck⟩ := Assembly.feedAll_error fed
      have tracks := Tracks.empty.feedAll ahead
      exact absurd (tracks.feed_error_iff.mp stuck) (faultless earlier culprit later split fault)
  · rintro ⟨a, fed⟩ earlier item later rfl fault faults
    obtain ⟨b, ahead, rest⟩ := Assembly.feed_append_iff.mp fed
    obtain ⟨c, passed, -⟩ := Assembly.feed_cons_iff.mp rest
    have tracks := Tracks.empty.feedAll ahead
    have stuck : b.feed source item = .error fault := tracks.feed_error_iff.mpr faults
    cases passed.symm.trans stuck

namespace Document

theorem ofItems_of_taken (fed : List.foldlM (Assembly.feed source) Assembly.empty items = .ok a) :
    ofItems source items = a.finish := by
  rw [ofItems, fed]

theorem ofItems_of_faults (faultless : Faultless earlier)
    (faults : (Ledger.of (tagsOf earlier)).Faults culprit fault) (more : List Item) :
    ofItems source (earlier ++ culprit :: more) = .error fault := by
  obtain ⟨a, ahead⟩ := (Faultless.taken_iff source).mp faultless
  have tracks := Tracks.empty.feedAll ahead
  have stuck : a.feed source culprit = .error fault := tracks.feed_error_iff.mpr faults
  rw [ofItems, Assembly.feed_append ahead, List.foldlM_cons, stuck]
  rfl

theorem finish_error_iff (tracks : Tracks l a) : a.finish = .error fault ↔
    l.openKeys ≠ [] ∧ fault = .unterminatedBlocks l.openKeys := by
  have keys : a.blocks.reverse.map OpenBlock.key = l.openKeys := by
    simp [Ledger.openKeys, tracks.blocks]
  rw [← keys]
  unfold Assembly.finish
  cases a.blocks with
  | nil => exact ⟨nofun, fun failed => absurd rfl failed.1⟩
  | cons block outer =>
    have full : (block :: outer).reverse.map OpenBlock.key ≠ [] := by simp
    simp only [List.isEmpty_cons, Bool.false_eq_true, if_false]
    constructor
    · intro failed
      cases failed
      exact ⟨full, rfl⟩
    · rintro ⟨-, rfl⟩
      rfl

theorem ofItems_error_iff (faultless : Faultless items) : ofItems source items = .error fault ↔
    (Ledger.of (tagsOf items)).openKeys ≠ [] ∧
      fault = .unterminatedBlocks (Ledger.of (tagsOf items)).openKeys := by
  obtain ⟨a, fed⟩ := (Faultless.taken_iff source).mp faultless
  rw [ofItems_of_taken fed]
  exact finish_error_iff (Tracks.empty.feedAll fed)

theorem ofItems_ends (faultless : Faultless items)
    (ends : List.Forall₂ EndsBlock (Ledger.of (tagsOf items)).openKeys.reverse more) :
    (∃ d, ofItems source (items ++ more) = .ok d) ∨
      ∃ key, ofItems source (items ++ more) = .error (.duplicatePartial key) := by
  obtain ⟨a, fed⟩ := (Faultless.taken_iff source).mp faultless
  have keys : (Ledger.of (tagsOf items)).openKeys.reverse =
      (Ledger.of (tagsOf items)).blocks.map Prod.fst := by
    rw [Ledger.openKeys, ← List.map_reverse, List.reverse_reverse]
  rw [keys] at ends
  rw [ofItems, Assembly.feed_append fed]
  rcases (Tracks.empty.feedAll fed).feedAll_ends ends with ⟨b, taken, closed⟩ | ⟨key, failed⟩
  · refine Or.inl ⟨⟨b.root.reverse, b.partials⟩, ?_⟩
    rw [taken]
    simp only [Assembly.finish, closed, List.isEmpty_nil, if_true]
  · refine Or.inr ⟨key, ?_⟩
    rw [failed]

-- The culprit is the first item at which a stream can no longer become a document: the items before
-- it leave at most some blocks open, and nothing behind it changes what is reported.
structure Breaks (source : List Char) (earlier : List Item) (culprit : Item) (fault : ParseError) :
    Prop where
  faultless : Faultless earlier
  cause : (Ledger.of (tagsOf earlier)).Faults culprit fault
  shortest : ∀ shorter, shorter <+: earlier → ∀ other, ofItems source shorter = .error other →
    ∃ keys, other = .unterminatedBlocks keys
  final : ∀ more, ofItems source (earlier ++ culprit :: more) = .error fault

theorem breaks (source : List Char) (faultless : Faultless earlier)
    (cause : (Ledger.of (tagsOf earlier)).Faults culprit fault) :
    Breaks source earlier culprit fault := by
  refine ⟨faultless, cause, ?_, ofItems_of_faults faultless cause⟩
  intro shorter front other failed
  obtain ⟨rest, rfl⟩ := front
  exact ⟨_, ((ofItems_error_iff faultless.of_append).mp failed).2⟩

theorem faultless_or_breaks (source : List Char) (items : List Item) : Faultless items ∨
    ∃ earlier culprit later fault,
      items = earlier ++ culprit :: later ∧ Breaks source earlier culprit fault := by
  cases fed : items.foldlM (Assembly.feed source) Assembly.empty with
  | ok a => exact Or.inl ((Faultless.taken_iff source).mpr ⟨a, fed⟩)
  | error fault =>
    obtain ⟨earlier, culprit, later, b, split, ahead, stuck⟩ := Assembly.feedAll_error fed
    have tracks := Tracks.empty.feedAll ahead
    have faultless := (Faultless.taken_iff source).mpr ⟨b, ahead⟩
    have cause := tracks.feed_error_iff.mp stuck
    exact Or.inr ⟨earlier, culprit, later, fault, split, breaks source faultless cause⟩

theorem fails_iff_breaks (other : ∀ keys, fault ≠ .unterminatedBlocks keys) :
    ofItems source items = .error fault ↔ ∃ earlier culprit later,
      items = earlier ++ culprit :: later ∧ Breaks source earlier culprit fault := by
  constructor
  · intro failed
    rcases faultless_or_breaks source items with faultless | found
    · exact absurd ((ofItems_error_iff faultless).mp failed).2 (other _)
    · obtain ⟨earlier, culprit, later, own, rfl, broken⟩ := found
      cases failed.symm.trans (broken.final later)
      exact ⟨earlier, culprit, later, rfl, broken⟩
  · rintro ⟨earlier, culprit, later, rfl, broken⟩
    exact broken.final later

theorem unterminated_iff (scanned : ∀ keys, .error (.unterminatedBlocks keys) ∉ items) :
    ofItems source items = .error (.unterminatedBlocks keys) ↔
      Faultless items ∧ keys ≠ [] ∧ keys = (Ledger.of (tagsOf items)).openKeys := by
  constructor
  · intro failed
    rcases faultless_or_breaks source items with faultless | found
    · obtain ⟨full, same⟩ := (ofItems_error_iff faultless).mp failed
      cases same
      exact ⟨faultless, full, rfl⟩
    · obtain ⟨earlier, culprit, later, own, rfl, broken⟩ := found
      cases failed.symm.trans (broken.final later)
      -- No fault of blocks is worded so, and the scan has none of this kind.
      cases broken.cause with
      | scan => exact absurd (List.mem_append_right _ List.mem_cons_self) (scanned keys)
  · rintro ⟨faultless, full, rfl⟩
    exact (ofItems_error_iff faultless).mpr ⟨full, rfl⟩

-- A stream fails at its first fault, and only then with anything but open blocks. These it reports
-- when it has no fault at all, all of them, outermost first, and their ends would complete it but for
-- a definition that is there twice.
theorem first_fault (source : List Char) (items : List Item) :
    (∀ fault, (∀ keys, fault ≠ .unterminatedBlocks keys) → (ofItems source items = .error fault ↔
      ∃ earlier culprit later, items = earlier ++ culprit :: later ∧
        Breaks source earlier culprit fault)) ∧
    (∀ earlier culprit fault, Faultless earlier →
      (Ledger.of (tagsOf earlier)).Faults culprit fault → Breaks source earlier culprit fault) ∧
    ((∀ keys, .error (.unterminatedBlocks keys) ∉ items) → ∀ keys,
      (ofItems source items = .error (.unterminatedBlocks keys) ↔
        Faultless items ∧ keys ≠ [] ∧ keys = (Ledger.of (tagsOf items)).openKeys) ∧
      (ofItems source items = .error (.unterminatedBlocks keys) →
        ∀ ends, List.Forall₂ EndsBlock keys.reverse ends →
          (∃ d, ofItems source (items ++ ends) = .ok d) ∨
            ∃ key, ofItems source (items ++ ends) = .error (.duplicatePartial key))) := by
  refine ⟨?_, ?_, ?_⟩
  · intro fault other
    exact fails_iff_breaks other
  · intro earlier culprit fault faultless cause
    exact breaks source faultless cause
  · intro scanned keys
    refine ⟨unterminated_iff scanned, ?_⟩
    intro failed ends closing
    obtain ⟨faultless, -, rfl⟩ := (unterminated_iff scanned).mp failed
    exact ofItems_ends faultless closing

namespace TwiceDefined

def source : List Char := "\x7b\x7b<p\x7d\x7d\x7b\x7b/p\x7d\x7d\x7b\x7b#s\x7d\x7d\x7b\x7b<p\x7d\x7d".toList

def unclosed : List Item := [.ok (.definitionStart "p"), .ok (.blockEnd "p" 6),
  .ok (.sectionStart false "s" 18 .standard), .ok (.definitionStart "p")]

def ends : List Item := [.ok (.blockEnd "p" 24), .ok (.blockEnd "s" 30)]

theorem faultless : Faultless unclosed := (Faultless.taken_iff source).mpr ⟨_, rfl⟩

theorem scanned : ∀ keys, .error (.unterminatedBlocks keys) ∉ unclosed := by
  intro keys
  simp [unclosed]

theorem closing : List.Forall₂ EndsBlock ["p", "s"] ends :=
  .cons ⟨24, rfl⟩ (.cons ⟨30, rfl⟩ .nil)

end TwiceDefined

-- The second end of the definition is reported, not the end behind it, which no block is open for.
open TwiceDefined in
theorem first_fault_twice :
    ofItems source (unclosed ++ .ok (.blockEnd "p" 24) :: [.ok (.blockEnd "t" 30)]) =
      .error (.duplicatePartial "p") ∧
    (∃ earlier culprit later, unclosed ++ ends = earlier ++ culprit :: later ∧
      Breaks source earlier culprit (.duplicatePartial "p")) ∧
    ofItems source unclosed = .error (.unterminatedBlocks ["s", "p"]) ∧
    ((∃ d, ofItems source (unclosed ++ ends) = .ok d) ∨
      ∃ key, ofItems source (unclosed ++ ends) = .error (.duplicatePartial key)) := by
  obtain ⟨-, breaks, reports⟩ := first_fault source unclosed
  obtain ⟨unterminated, closes⟩ := reports scanned ["s", "p"]
  have broken := breaks unclosed (.ok (.blockEnd "p" 24)) (.duplicatePartial "p") faultless
    (.duplicate rfl (by decide))
  have failed := unterminated.mpr ⟨faultless, by decide, rfl⟩
  have located := (first_fault source (unclosed ++ ends)).1 (.duplicatePartial "p") nofun
  exact ⟨broken.final _, located.mp (broken.final _), failed, closes failed ends closing⟩

end Document
end Mustache
