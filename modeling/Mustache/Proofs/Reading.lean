import Mustache.Proofs.Outline
import Mustache.Proofs.Stretch

namespace Mustache
open Text

def Pending (pair : Delimiters) (text : List Char) : Prop := text = [] ∨ IsRun pair text

-- What may stand behind a printed tag: it neither ends the line of the tag nor goes on with its
-- braces.
structure Followed (pair : Delimiters) (tail : List Char) : Prop where
  line : tail = [] ∨ lineEnd? tail = none
  braces : pair.closing = "\x7d\x7d" → tail.head? ≠ some '}'

namespace Followed

theorem nil : Followed pair [] := ⟨Or.inl rfl, by simp⟩

theorem cut (followed : Followed pair tail) (drops : Bool) : cutLineEnd drops tail = ([], tail) := by
  unfold cutLineEnd
  split
  · rcases followed.line with rfl | goesOn
    · rfl
    · rw [goesOn, Option.getD_none]
  · rfl

theorem head_ne (followed : Followed pair tail) : tail.head? ≠ some '\n' := by
  intro broken
  obtain ⟨rest, rfl⟩ := List.head?_eq_some_iff.mp broken
  have ends : lineEnd? ('\n' :: rest) = some (['\n'], rest) :=
    lineEnd_eq_some_iff.mpr ⟨rfl, [], ['\n'], rfl, by simp, Or.inl (Or.inl rfl)⟩
  rcases followed.line with empty | goesOn
  · cases empty
  · rw [ends] at goesOn; cases goesOn

theorem run (isRun : IsRun pair text) (followed : Followed pair tail) :
    Followed pair (text ++ tail) := by
  obtain ⟨c, member, visible⟩ := isRun.visible
  refine ⟨Or.inr (lineEnd_eq_none member visible isRun.line followed.head_ne), fun same => ?_⟩
  obtain ⟨d, rest, rfl⟩ := List.exists_cons_of_ne_nil (List.ne_nil_of_mem member)
  exact isRun.braces same

theorem wrap (prints : pair.Prints) : Followed pair (pair.wrap body ++ tail) := by
  obtain ⟨c, rest, opens, inked⟩ := prints.words.opening.cons
  have shape : pair.wrap body ++ tail = c :: (rest ++ body ++ pair.closing.toList ++ tail) := by
    simp [Delimiters.wrap, opens]
  rw [shape]
  refine ⟨Or.inr (lineEnd_of_inked inked), fun same => ?_⟩
  have apart := prints.braces same
  rw [opens] at apart
  exact apart

end Followed

theorem Delimiters.IsWord.first (word : IsWord delimiter)
    (absent : ∀ c ∈ delimiter.toList.head?, c ∉ lead) :
    First delimiter.toList (lead ++ delimiter.toList ++ rest) lead := by
  obtain ⟨c, more, shape⟩ := List.exists_cons_of_ne_nil word.1
  rw [shape] at absent ⊢
  exact First.of_head_notMem (absent c rfl)

theorem Pending.absent (pending : Pending pair text) :
    ∀ c ∈ pair.opening.toList.head?, c ∉ text := by
  rcases pending with rfl | isRun
  · simp
  · exact isRun.opening

theorem ends_wrap (prints : Delimiters.Prints pair)
    (absent : ∀ c ∈ pair.closing.toList.head?, c ∉ body) (followed : Followed pair tail) :
    Closing.Ends pair.closing.toList (body ++ pair.closing.toList ++ tail) body tail := by
  have first : First pair.closing.toList (body ++ pair.closing.toList ++ tail) body :=
    prints.words.closing.first absent
  by_cases standard : pair.closing = "\x7d\x7d"
  · have braces : pair.closing.toList = ['}', '}'] := by rw [standard]; rfl
    rw [braces] at first ⊢
    have ends := Closing.Ends.braces (n := 0) first rfl (followed.braces standard)
    simpa using ends
  · refine .plain (fun same => standard ?_) first rfl
    rw [← String.toList_inj, same]
    rfl

def Scan.amid (pair : Delimiters) (depth offset : Nat) (rest : List Char) : Scan :=
  ⟨rest, offset, pair, List.replicate depth .content, false, none⟩

theorem find_of_absent (sourceStart : Bool) (inside : List Char)
    (word : Delimiters.IsWord delimiter) (absent : ∀ c ∈ delimiter.toList.head?, c ∉ lead) :
    ∃ o, Opening.find? delimiter.toList sourceStart (lead ++ delimiter.toList ++ inside) = some o ∧
      o.lead = lead ∧ o.rest = inside := by
  have stands : delimiter.toList <:+: lead ++ delimiter.toList ++ inside := ⟨lead, inside, rfl⟩
  obtain ⟨o, opened⟩ : ∃ o, Opening.find? delimiter.toList sourceStart _ = some o :=
    Opening.find_of_infix stands
  have fits := Opening.find_fits opened
  have front : o.lead = lead := by
    obtain ⟨c, rest, opens, inked⟩ := word.cons
    have first : First delimiter.toList (lead ++ delimiter.toList ++ inside) lead :=
      word.first absent
    rw [opens] at fits first
    exact (fits.first inked).unique first
  have whole := fits.whole
  rw [front] at whole
  exact ⟨o, opened, front, (List.append_cancel_left whole).symm⟩

theorem find_wrap (sourceStart : Bool) (body tail : List Char) (prints : Delimiters.Prints pair)
    (pending : Pending pair text) :
    ∃ o, Opening.find? pair.opening.toList sourceStart (text ++ pair.wrap body ++ tail) = some o ∧
      o.lead = text ∧ o.rest = body ++ pair.closing.toList ++ tail := by
  have parts : text ++ pair.wrap body ++ tail =
      text ++ pair.opening.toList ++ (body ++ pair.closing.toList ++ tail) := by
    simp only [Delimiters.wrap, List.append_assoc]
  rw [parts]
  exact find_of_absent sourceStart _ prints.words.opening pending.absent

theorem stretch_wrap (depth offset : Nat) (prints : Delimiters.Prints pair)
    (pending : Pending pair text)
    (absent : ∀ c ∈ pair.closing.toList.head?, c ∉ body) (followed : Followed pair tail) :
    ∃ t, (Scan.amid pair depth offset (text ++ pair.wrap body ++ tail)).stretch? = some t ∧
      t.opening.lead = text ∧ t.closing = ⟨body, tail⟩ := by
  obtain ⟨o, opened, lead, rest⟩ := find_wrap (offset = 0) body tail prints pending
  have closed := Closing.find_of_ends (ends_wrap prints absent followed)
  rw [← rest] at closed
  have full : (text ++ pair.wrap body ++ tail).isEmpty = false := by
    simp [Delimiters.wrap, prints.words.opening.1]
  refine ⟨⟨Scan.amid pair depth offset (text ++ pair.wrap body ++ tail), o, ⟨body, tail⟩⟩, ?_, lead, rfl⟩
  unfold Scan.stretch? Scan.amid
  simp only [full, opened, closed, Bool.false_eq_true, if_false, Option.map_some]

theorem dropped_nil (sound : Stretch.Sound t) (fresh : t.scan.afterDefinition = false)
    (pending : Pending pair t.opening.lead) : t.dropped = [] := by
  rcases pending with none | isRun
  · have parts := t.kept_dropped
    rw [none, eq_comm, List.append_eq_nil_iff] at parts
    exact parts.2
  · obtain ⟨mark, member, visible⟩ := isRun.visible
    obtain ⟨more, between, same⟩ := List.append_of_mem member
    have line : '\n' ∉ mark :: between := fun broken => isRun.line (by rw [same]; simp [broken])
    have noStart := sound.opens.lineStart_of_visible same visible line
    have begins : t.scan.beginsLine t.opening = false := by
      simp [Scan.beginsLine, fresh, noStart, same]
    rw [Stretch.dropped, Stretch.not_standalone begins, if_neg (by simp)]

theorem items_wrap (prints : Delimiters.Prints pair) (pending : Pending pair text)
    (absent : ∀ c ∈ pair.closing.toList.head?, c ∉ body) (followed : Followed pair tail)
    (reads : Tag.ofBody pair ⟨offset + size text, offset + size text + size (pair.wrap body)⟩ []
      body = some tag)
    (opens : closesDefinition (some tag) (List.replicate depth .content) = false)
    (keeps : activeAfter (some tag) (List.replicate depth .content) pair = pair)
    (deep : blocksAfter (some tag) (List.replicate depth .content) = List.replicate depth' .content) :
    (Scan.amid pair depth offset (text ++ pair.wrap body ++ tail)).items =
      Scan.yielded text (some tag) ++
        (Scan.amid pair depth' (offset + size text + size (pair.wrap body)) tail).items := by
  obtain ⟨t, met, lead, closing⟩ := stretch_wrap depth offset prints pending absent followed
  have extent := prints.words.clear.hasExtent
  obtain ⟨same, sound, -⟩ := Scan.stretch_sound met
  have none : t.dropped = [] := dropped_nil sound (by rw [same]; rfl) (lead ▸ pending)
  have kept : t.kept = text := by rw [← lead, t.kept_dropped, none, List.append_nil]
  have start : t.span.start = offset + size text := by rw [t.span_start, lead, same]; rfl
  have stop : t.span.stop = offset + size text + size (pair.wrap body) := by
    rw [t.span_stop, start, closing, same]; rfl
  have span : t.span = ⟨offset + size text, offset + size text + size (pair.wrap body)⟩ := by
    rw [← stop, ← start]
  have tag_eq : t.tag = some tag := by
    rw [t.tag_eq, none, span, closing, same]; exact reads
  have closes : t.closes = false := by rw [Stretch.closes, tag_eq, same]; exact opens
  have next : t.next = Scan.amid pair depth' (offset + size text + size (pair.wrap body)) tail := by
    have cut := followed.cut (t.isStandalone || t.closes)
    unfold Stretch.next Stretch.skipped
    rw [closing, cut, stop, tag_eq, closes, same]
    simp only [Scan.amid, keeps, deep, size_nil, Nat.add_zero]
  rw [Scan.items_of_some met extent rfl, kept, tag_eq, next]

-- The items of a scan that has come to `tail`, as a function of the byte where it stands.
structure Continues (pair : Delimiters) (depth : Nat) (tail : List Char) (more : Nat → List Item) :
    Prop where
  followed : Followed pair tail
  items : ∀ offset, (Scan.amid pair depth offset tail).items = more offset

-- A text in front of `tail` stays a text of its own.
structure Separated (pair : Delimiters) (depth : Nat) (tail : List Char) (more : Nat → List Item) :
    Prop extends Continues pair depth tail more where
  behind : ∀ text offset, IsRun pair text → (Scan.amid pair depth offset (text ++ tail)).items =
    .ok (.text (String.ofList text)) :: more (offset + size text)

theorem Delimiters.Prints.find_eq_none (prints : Delimiters.Prints pair) (sourceStart : Bool)
    (absent : ∀ c ∈ pair.opening.toList.head?, c ∉ text) :
    Opening.find? pair.opening.toList sourceStart text = none := by
  cases opened : Opening.find? pair.opening.toList sourceStart text with
  | none => rfl
  | some o =>
    obtain ⟨c, rest, opens, -⟩ := prints.words.opening.cons
    have whole := (Opening.find_fits opened).whole
    rw [opens] at absent whole
    exact absurd (by rw [whole]; simp) (absent c rfl)

theorem separated_nil (depth : Nat) (prints : Delimiters.Prints pair) :
    Separated pair depth [] (fun _ => []) := by
  refine ⟨⟨.nil, fun offset => Scan.items_of_none rfl rfl⟩, fun text offset isRun => ?_⟩
  obtain ⟨c, member, -⟩ := isRun.visible
  have full : text.isEmpty = false := by
    simpa using List.ne_nil_of_mem member
  have missed := prints.find_eq_none (offset = 0) isRun.opening
  rw [List.append_nil, Scan.items_of_none]
  · unfold Scan.ending Scan.round Scan.amid
    simp only [full, missed, Bool.false_eq_true, if_false]
  · unfold Scan.stretch? Scan.amid
    simp only [full, missed, Bool.false_eq_true, if_false]
  · rfl

theorem continues_run (isRun : IsRun pair text) (later : Separated pair depth tail more) :
    Continues pair depth (text ++ tail)
      (fun offset => .ok (.text (String.ofList text)) :: more (offset + size text)) :=
  ⟨later.followed.run isRun, fun offset => later.behind text offset isRun⟩

theorem separated_wrap (depth : Nat) (body : List Char) (tag : Nat → Tag)
    (prints : Delimiters.Prints pair)
    (absent : ∀ c ∈ pair.closing.toList.head?, c ∉ body)
    (reads : ∀ offset, Tag.ofBody pair ⟨offset, offset + size (pair.wrap body)⟩ [] body =
      some (tag offset))
    (opens : ∀ offset, closesDefinition (some (tag offset)) (List.replicate depth .content) = false)
    (keeps : ∀ offset, activeAfter (some (tag offset)) (List.replicate depth .content) pair = pair)
    (deep : ∀ offset, blocksAfter (some (tag offset)) (List.replicate depth .content) =
      List.replicate depth' .content)
    (later : Continues pair depth' tail more) :
    Separated pair depth (pair.wrap body ++ tail)
      (fun offset => .ok (tag offset) :: more (offset + size (pair.wrap body))) := by
  refine ⟨⟨.wrap prints, fun offset => ?_⟩, fun text offset isRun => ?_⟩
  · have items : (Scan.amid pair depth offset ([] ++ pair.wrap body ++ tail)).items = _ :=
      items_wrap prints (Or.inl rfl) absent later.followed (reads offset) (opens offset)
        (keeps offset) (deep offset)
    rw [List.nil_append, size_nil, Nat.add_zero, later.items] at items
    exact items
  · have items := items_wrap prints (Or.inr isRun) absent later.followed
      (reads (offset + size text)) (opens (offset + size text)) (keeps (offset + size text))
      (deep (offset + size text))
    obtain ⟨c, member, -⟩ := isRun.visible
    rw [← List.append_assoc, items, later.items, Scan.yielded, if_neg (by
      simpa using List.ne_nil_of_mem member)]
    rfl

theorem Continues.of_eq (continues : Continues pair depth tail more) (parts : tail = tail')
    (same : ∀ offset, more offset = more' offset) : Continues pair depth tail' more' := by
  obtain rfl : more = more' := funext same
  exact parts ▸ continues

theorem Separated.of_eq (separated : Separated pair depth tail more) (parts : tail = tail')
    (same : ∀ offset, more offset = more' offset) : Separated pair depth tail' more' := by
  obtain rfl : more = more' := funext same
  exact parts ▸ separated

namespace Outline

theorem block_separated (prints : Delimiters.Prints pair) (named : IsKey pair key)
    (inner : ∀ more, Separated pair (depth + 1) (pair.wrap ('/' :: key.toList) ++ tail) more →
      Continues pair (depth + 1) (printAll pair children ++ (pair.wrap ('/' :: key.toList) ++ tail))
        (fun offset => itemsAll pair offset children ++
          more (offset + size (printAll pair children))))
    (later : Continues pair depth tail more) :
    Separated pair depth ((Outline.block inverted key children).print pair ++ tail)
      (fun offset => (Outline.block inverted key children).items pair offset ++
        more (offset + size ((Outline.block inverted key children).print pair))) := by
  have ends := separated_wrap (depth + 1) ('/' :: key.toList) (fun offset => .blockEnd key offset)
    prints (named.absent_behind prints (by simp)) (fun _ => Tag.ofBody_slash named)
    (fun _ => rfl) (fun _ => rfl) (fun _ => rfl) later
  have opens := separated_wrap depth (sigil inverted :: key.toList)
    (fun offset => .sectionStart inverted key
      (offset + size (pair.wrap (sigil inverted :: key.toList))) pair)
    prints (named.absent_behind prints (by cases inverted <;> simp [sigil]))
    (fun _ => Tag.ofBody_sigil named inverted) (fun _ => rfl) (fun _ => rfl) (fun _ => rfl)
    (inner _ ends)
  refine opens.of_eq ?_ fun offset => ?_
  · simp only [print, List.append_assoc]
  · simp only [Outline.items, print, size_append, List.cons_append, List.append_assoc,
      Nat.add_assoc, List.nil_append]

mutual
theorem separated (prints : Delimiters.Prints pair) (outline : Outline)
    (tag : outline.isText = false) (legible : outline.Legible pair)
    (later : Continues pair depth tail more) :
    Separated pair depth (outline.print pair ++ tail)
      (fun offset => outline.items pair offset ++ more (offset + size (outline.print pair))) := by
  cases outline with
  | text run => cases tag
  | interpolation key escaped =>
    obtain ⟨named, plain⟩ := legible
    exact separated_wrap depth _ (fun _ => .interpolation key escaped) prints
      (named.absent_variableBody prints escaped) (fun _ => Tag.ofBody_variableBody named plain)
      (fun _ => rfl) (fun _ => rfl) (fun _ => rfl) later
  | reference key =>
    exact separated_wrap depth _ (fun _ => .reference key "") prints
      (IsKey.absent_behind legible prints (by simp)) (fun _ => Tag.ofBody_arrow legible)
      (fun _ => rfl) (fun _ => rfl) (fun _ => rfl) later
  | block inverted key children =>
    obtain ⟨named, childrenLegible⟩ := legible
    exact block_separated prints named
      (fun _ ends => (continues prints children childrenLegible ends).1) later
theorem continues (prints : Delimiters.Prints pair) (forest : List Outline)
    (legible : LegibleAll pair forest) (later : Separated pair depth tail more) :
    Continues pair depth (printAll pair forest ++ tail)
      (fun offset => itemsAll pair offset forest ++ more (offset + size (printAll pair forest))) ∧
    ((∀ first ∈ forest.head?, first.isText = false) →
      Separated pair depth (printAll pair forest ++ tail)
        (fun offset => itemsAll pair offset forest ++
          more (offset + size (printAll pair forest)))) := by
  cases forest with
  | nil => exact ⟨later.toContinues, fun _ => later⟩
  | cons outline rest =>
    -- A text is handed out together with what follows it, which is no text itself.
    obtain ⟨legible, apart, restLegible⟩ := legible
    obtain ⟨goesOn, joins⟩ := continues prints rest restLegible later
    have parts : outline.print pair ++ (printAll pair rest ++ tail) =
        printAll pair (outline :: rest) ++ tail := by
      simp only [printAll, List.append_assoc]
    have same : ∀ offset, outline.items pair offset ++
        (itemsAll pair (offset + size (outline.print pair)) rest ++
          more (offset + size (outline.print pair) + size (printAll pair rest))) =
        itemsAll pair offset (outline :: rest) ++
          more (offset + size (printAll pair (outline :: rest))) := by
      intro offset
      simp only [itemsAll, printAll, size_append, List.append_assoc, Nat.add_assoc]
    cases kind : outline.isText with
    | false =>
      have result := (separated prints outline kind legible goesOn).of_eq parts same
      exact ⟨result.toContinues, fun _ => result⟩
    | true =>
      refine ⟨?_, fun first => absurd (first outline rfl) (by simp [kind])⟩
      cases outline with
      | text run =>
        have run_eq : String.ofList run.toList = run := String.ofList_toList
        have result := continues_run legible (joins (apart rfl))
        rw [run_eq] at result
        exact result.of_eq parts same
      | _ => cases kind
end

end Outline

theorem items_printAll (prints : Delimiters.Prints pair) (legible : Outline.LegibleAll pair forest) :
    (Scan.start (Outline.printAll pair forest) pair).items = Outline.itemsAll pair 0 forest := by
  have read := (Outline.continues prints forest legible (separated_nil 0 prints)).1.items 0
  rw [List.append_nil, List.append_nil] at read
  exact read

end Mustache
