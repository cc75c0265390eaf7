import Mustache.ParseError
import Mustache.Text.Bytes
import Mustache.Tag.Basic
import Mustache.Tag.Opening
import Mustache.Tag.Closing

namespace Mustache
open Text

abbrev Item := Except ParseError Tag

inductive BlockKind where
  | content
  | definition
deriving DecidableEq, Repr

-- A scan that has come to the byte `offset`, with `rest` before it. The open blocks are listed
-- innermost first. `waiting` is the tag behind a text that was just handed out.
structure Scan where
  rest : List Char
  offset : Nat
  active : Delimiters
  blocks : List BlockKind
  afterDefinition : Bool
  waiting : Option Tag
deriving DecidableEq, Repr

inductive Round where
  | over
  | trailing (text : List Char) (next : Scan)
  | unclosed (offset : Nat) (next : Scan)
  | tagged (text : List Char) (tag : Option Tag) (next : Scan)
deriving DecidableEq, Repr

def blocksAfter (tag : Option Tag) (blocks : List BlockKind) : List BlockKind :=
  match tag with
  | some (.sectionStart ..) => .content :: blocks
  | some (.definitionStart _) => .definition :: blocks
  | some (.blockEnd ..) => blocks.tail
  | _ => blocks

def closesDefinition (tag : Option Tag) (blocks : List BlockKind) : Bool :=
  match tag with
  | some (.blockEnd ..) => blocks.head? = some .definition
  | _ => false

-- A change lasts until the next one or until the definition around it closes, which brings the
-- standard pair back.
def activeAfter (tag : Option Tag) (blocks : List BlockKind) (active : Delimiters) : Delimiters :=
  if closesDefinition tag blocks then .standard
  else match tag with
    | some (.delimiterChange pair) => pair
    | _ => active

namespace Scan

def start (source : List Char) (pair : Delimiters) : Scan :=
  ⟨source, 0, pair, [], false, none⟩

def start? (source : String) (pair : Delimiters) : Except ParseError Scan :=
  if pair.isUsable then .ok (start source.toList pair) else .error .unusableDelimiters

-- A tag begins a line behind a line break or the start of the source, behind the close of a
-- definition, and right behind the tag before it.
def beginsLine (s : Scan) (o : Opening) : Bool :=
  s.afterDefinition || o.lineStart.isSome || o.lead.isEmpty

def spanOf (s : Scan) (o : Opening) (c : Closing) : Tag.Span :=
  let start := s.offset + size o.lead
  ⟨start, start + size s.active.opening.toList + size c.body + size s.active.closing.toList⟩

def isAlone (s : Scan) (o : Opening) (c : Closing) : Bool :=
  s.beginsLine o && (lineEnd? c.rest).isSome

def tagOf (s : Scan) (o : Opening) (c : Closing) : Option Tag :=
  Tag.ofBody s.active (s.spanOf o c) (if s.isAlone o c then o.indent else []) c.body

def isStandalone (s : Scan) (o : Opening) (c : Closing) : Bool :=
  s.isAlone o c && !(s.tagOf o c).any Tag.isInterpolation

-- A standalone tag drops its line. The close of a definition drops the end of its line even where
-- text stands before it.
def settle (s : Scan) (o : Opening) (c : Closing) : Round :=
  let tag := s.tagOf o c
  let standalone := s.isStandalone o c
  let closes := closesDefinition tag s.blocks
  let (skipped, rest) := cutLineEnd (standalone || closes) c.rest
  .tagged (if standalone then o.before ++ o.lineBreak else o.lead) tag
    { rest := rest
      offset := (s.spanOf o c).stop + size skipped
      active := activeAfter tag s.blocks s.active
      blocks := blocksAfter tag s.blocks
      afterDefinition := closes
      waiting := none }

def atEnd (s : Scan) : Scan := { s with rest := [], offset := s.offset + size s.rest }

def round (s : Scan) : Round :=
  if s.rest.isEmpty then .over
  else
    match Opening.find? s.active.opening.toList (s.offset = 0) s.rest with
    | none => .trailing s.rest s.atEnd
    | some o =>
      match Closing.find? s.active.closing.toList o.rest with
      | none => .unclosed (s.offset + size o.lead) s.atEnd
      | some c => s.settle o c

theorem settle_advance (opened : s.rest = o.lead ++ s.active.opening.toList ++ o.rest)
    (closed : o.rest = c.body ++ s.active.closing.toList ++ c.rest)
    (settled : settle s o c = .tagged run tag next) :
    ∃ taken, s.rest = taken ++ next.rest ∧ next.offset = s.offset + size taken := by
  unfold settle at settled
  dsimp only at settled
  injection settled with _ _ reached
  subst reached
  generalize (s.isStandalone o c || closesDefinition (s.tagOf o c) s.blocks) = drops
  refine ⟨o.lead ++ s.active.opening.toList ++ c.body ++ s.active.closing.toList ++
    (cutLineEnd drops c.rest).1, ?_, ?_⟩
  · have ending := cutLineEnd_append drops c.rest
    simp only [List.append_assoc] at opened closed ending ⊢
    rw [← ending, ← closed, ← opened]
  · simp only [spanOf, size_append]
    omega

theorem round_advance (tagged : round s = .tagged text tag next) :
    ∃ taken, s.rest = taken ++ next.rest ∧ next.offset = s.offset + size taken := by
  unfold round at tagged
  split at tagged
  · cases tagged
  · split at tagged
    · cases tagged
    · rename_i o opened
      split at tagged
      · cases tagged
      · rename_i c closed
        exact settle_advance (Opening.find_append opened) (Closing.find_append closed) tagged

theorem round_shorter (tagged : round s = .tagged text tag next) (moved : s.offset < next.offset) :
    next.rest.length < s.rest.length := by
  obtain ⟨taken, parts, reached⟩ := round_advance tagged
  cases taken with
  | nil => simp only [size_nil] at reached; omega
  | cons c taken => rw [parts, List.length_append, List.length_cons]; omega

def next? (s : Scan) : Option (Item × Scan) :=
  match s.waiting with
  | some tag => some (.ok tag, { s with waiting := none })
  | none =>
    match _ : s.round with
    | .over => none
    | .trailing text next => some (.ok (.text (String.ofList text)), next)
    | .unclosed offset next => some (.error (.unclosedTag offset), next)
    | .tagged text tag next =>
      match text.isEmpty, tag with
      | false, tag => some (.ok (.text (String.ofList text)), { next with waiting := tag })
      | true, some tag => some (.ok tag, next)
      | true, none => if _ : s.offset < next.offset then next.next? else none
termination_by s.rest.length
decreasing_by exact round_shorter ‹_› ‹_›

def yielded (text : List Char) (tag : Option Tag) : List Item :=
  (if text.isEmpty then [] else [.ok (.text (String.ofList text))]) ++ (tag.map Except.ok).toList

def itemsFrom (done : List Item) (s : Scan) : List Item :=
  match _ : s.round with
  | .over => done.reverse
  | .trailing text _ => (.ok (.text (String.ofList text)) :: done).reverse
  | .unclosed offset _ => (.error (.unclosedTag offset) :: done).reverse
  | .tagged text tag next =>
    let done := (yielded text tag).reverse ++ done
    if _ : s.offset < next.offset then next.itemsFrom done else done.reverse
termination_by s.rest.length
decreasing_by exact round_shorter ‹_› ‹_›

def items (s : Scan) : List Item := s.itemsFrom ((s.waiting.map Except.ok).toList)

end Scan
end Mustache
