import Mustache.Proofs.Assembly
import Mustache.Proofs.Occurrence

namespace Mustache
open Text

inductive RawText (source : List Char) (start stop : Nat) : String → Prop where
  | range (whole : source = before ++ text ++ after) (starts : size before = start)
      (stops : size before + size text = stop) : RawText source start stop (String.ofList text)
  | none (absent : ∀ before text after, source = before ++ text ++ after → size before = start →
      size before + size text ≠ stop) : RawText source start stop ""

theorem rawText_iff : RawText source start stop raw ↔ raw = Assembly.rawText source start stop := by
  constructor
  · intro reads
    cases reads with
    | range whole starts stops =>
      rw [← stops, starts, Assembly.rawText_eq whole starts]
    | none absent =>
      cases found : slice? source start stop with
      | none => rw [Assembly.rawText, found]; rfl
      | some middle =>
        obtain ⟨before, after, whole, starts, stops⟩ := slice_eq_some_iff.mp found
        exact absurd stops (absent before middle after whole starts)
  · rintro rfl
    unfold Assembly.rawText
    cases found : slice? source start stop with
    | none =>
      refine .none fun before text after whole starts stops => ?_
      rw [slice_eq_some_iff.mpr ⟨before, after, whole, starts, stops⟩] at found
      cases found
    | some middle =>
      obtain ⟨before, after, whole, starts, stops⟩ := slice_eq_some_iff.mp found
      exact .range whole starts stops

def Tag.isChange : Tag → Bool
  | .delimiterChange _ => true
  | _ => false

-- A stream of tags in which every block is closed under its own key, with the nodes that it stands
-- for and the definitions in it, in the order in which they close. A definition leaves no node in
-- its place, and those inside it are listed before it.
inductive Balanced (source : List Char) :
    List Tag → List Node → List (String × List Node) → Prop where
  | nil : Balanced source [] [] []
  | text (later : Balanced source tags nodes definitions) :
      Balanced source (.text run :: tags) (.text run :: nodes) definitions
  | interpolation (later : Balanced source tags nodes definitions) :
      Balanced source (.interpolation key escaped :: tags) (.interpolation key escaped :: nodes)
        definitions
  | reference (later : Balanced source tags nodes definitions) :
      Balanced source (.reference key indent :: tags) (.reference key indent :: nodes) definitions
  | content (inner : Balanced source inside children within) (reads : RawText source start stop raw)
      (later : Balanced source tags nodes definitions) :
      Balanced source
        (.sectionStart inverted key start pair :: (inside ++ .blockEnd key stop :: tags))
        (.block inverted key children raw pair :: nodes) (within ++ definitions)
  | definition (inner : Balanced source inside children within)
      (later : Balanced source tags nodes definitions) :
      Balanced source (.definitionStart key :: (inside ++ .blockEnd key stop :: tags)) nodes
        (within ++ (key, children) :: definitions)

theorem Balanced.append (first : Balanced source tags nodes definitions)
    (second : Balanced source more nodes' definitions') :
    Balanced source (tags ++ more) (nodes ++ nodes') (definitions ++ definitions') := by
  induction first with
  | nil => exact second
  | text later ih => exact .text ih
  | interpolation later ih => exact .interpolation ih
  | reference later ih => exact .reference ih
  | content inner reads later _ ih =>
    rw [List.cons_append, List.append_assoc, List.append_assoc]
    exact .content inner reads ih
  | definition inner later _ ih =>
    rw [List.cons_append, List.append_assoc, List.append_assoc]
    exact .definition inner ih

namespace Assembly
variable {a b : Assembly} {definitions first second : List (String × List Node)}

def register (a : Assembly) (definitions : List (String × List Node)) : Assembly :=
  { a with partials := a.partials.insertAll definitions }

theorem add_register (a : Assembly) (node : Node) (definitions : List (String × List Node)) :
    (a.register definitions).add node = (a.add node).register definitions := by
  obtain ⟨root, blocks, partials⟩ := a
  cases blocks <;> rfl

theorem addAll_register (a : Assembly) (nodes : List Node)
    (definitions : List (String × List Node)) :
    (a.register definitions).addAll nodes = (a.addAll nodes).register definitions := by
  induction nodes generalizing a with
  | nil => rfl
  | cons node nodes ih =>
    have rest := ih (a.add node)
    rw [← add_register] at rest
    exact rest

theorem register_append (a : Assembly) (first second : List (String × List Node)) :
    (a.register first).register second = a.register (first ++ second) := by
  simp only [register, Entries.insertAll, List.foldl_append]

theorem leave_definition (a : Assembly) (nodes : List Node) (key : String) (source : List Char)
    (stop : Nat) (fresh : a.partials.get? key = none) :
    ((a.enter key .definition).addAll nodes).leave source key stop =
      .ok (a.register [(key, nodes)]) := by
  rw [enter, addAll_of_block, leave]
  simp only [if_true, fresh, List.append_nil, List.reverse_reverse]
  rfl

structure Admits (a : Assembly) (definitions : List (String × List Node)) : Prop where
  distinct : (definitions.map Prod.fst).Nodup
  fresh : ∀ key ∈ definitions.map Prod.fst, a.partials.get? key = none

theorem Admits.of_partials (admits : a.Admits definitions)
    (same : b.partials = a.partials) : b.Admits definitions :=
  ⟨admits.distinct, by rw [same]; exact admits.fresh⟩

theorem Admits.split (admits : a.Admits (first ++ second)) :
    a.Admits first ∧ (a.register first).Admits second := by
  obtain ⟨distinct, fresh⟩ := admits
  rw [List.map_append] at distinct fresh
  obtain ⟨left, right, apart⟩ := List.nodup_append.mp distinct
  refine ⟨⟨left, fun key member => fresh key (List.mem_append_left _ member)⟩, right, ?_⟩
  intro key member
  have absent : key ∉ first.map Prod.fst := fun other => apart key other key member rfl
  exact (Entries.get_insertAll_of_notMem absent a.partials).trans
    (fresh key (List.mem_append_right _ member))

theorem feed_balanced (balanced : Balanced source tags nodes definitions) (a : Assembly)
    (admits : a.Admits definitions) : (tags.map Except.ok).foldlM (feed source) a =
      .ok ((a.addAll nodes).register definitions) := by
  induction balanced generalizing a with
  | nil => rfl
  | @text tags nodes definitions run later ih =>
    have rest := ih (a.add (.text run)) (admits.of_partials (a.add_partials _))
    exact rest
  | @interpolation tags nodes definitions key escaped later ih =>
    exact ih (a.add (.interpolation key escaped)) (admits.of_partials (a.add_partials _))
  | @reference tags nodes definitions key indent later ih =>
    exact ih (a.add (.reference key indent)) (admits.of_partials (a.add_partials _))
  | @content inside children within start stop raw tags nodes definitions inverted key pair inner
      reads later innerFed laterFed =>
    obtain ⟨first, second⟩ := admits.split
    have filled := innerFed (a.enter key (.content inverted start pair)) (first.of_partials rfl)
    have left := leave_enter (a.register within) children inverted key pair source start stop
    have rest := laterFed ((a.register within).add (.block inverted key children raw pair))
      (second.of_partials (add_partials _ _))
    rw [← rawText_iff.mp reads] at left
    rw [← addAll_register] at filled
    rw [List.map_cons, List.map_append, List.map_cons, feed_block rfl filled left, rest,
      add_register, addAll_register, register_append]
    rfl
  | @definition inside children within tags nodes definitions key stop inner later innerFed
      laterFed =>
    obtain ⟨first, second⟩ := admits.split
    have fresh : (a.register within).partials.get? key = none :=
      second.fresh key List.mem_cons_self
    obtain ⟨-, later⟩ :
        _ ∧ ((a.register within).register [(key, children)]).Admits definitions := second.split
    have filled := innerFed (a.enter key .definition) (first.of_partials rfl)
    have left := leave_definition (a.register within) children key source stop fresh
    have rest := laterFed ((a.register within).register [(key, children)]) later
    rw [← addAll_register] at filled
    rw [List.map_cons, List.map_append, List.map_cons, feed_block rfl filled left, rest,
      addAll_register, addAll_register, register_append, register_append]
    rfl

end Assembly

inductive Opens : Tag → String → BlockRole → Prop where
  | content : Opens (.sectionStart inverted key start pair) key (.content inverted start pair)
  | definition : Opens (.definitionStart key) key .definition

-- A stream with some blocks still open, innermost first: between the tags that open them it is
-- balanced. Nodes are listed latest first, as an assembly lists them.
inductive Unfinished (source : List Char) :
    List Tag → List Node → List OpenBlock → List (String × List Node) → Prop where
  | outermost (balanced : Balanced source tags root.reverse definitions) :
      Unfinished source tags root [] definitions
  | within (outer : Unfinished source tags root blocks definitions) (opens : Opens tag key role)
      (balanced : Balanced source inside children.reverse definitions') :
      Unfinished source (tags ++ tag :: inside) root (⟨key, role, children⟩ :: blocks)
        (definitions ++ definitions')

theorem Unfinished.append (a : Assembly)
    (unfinished : Unfinished source tags a.root a.blocks definitions)
    (balanced : Balanced source more nodes definitions') :
    Unfinished source (tags ++ more) (a.addAll nodes).root (a.addAll nodes).blocks
      (definitions ++ definitions') := by
  obtain ⟨root, blocks, partials⟩ := a
  cases unfinished with
  | outermost first =>
    rw [Assembly.addAll_of_root]
    refine .outermost ?_
    rw [List.reverse_append, List.reverse_reverse]
    exact first.append balanced
  | within outer opens first =>
    rw [Assembly.addAll_of_block, List.append_assoc, List.append_assoc]
    refine .within outer opens ?_
    rw [List.reverse_append, List.reverse_reverse]
    exact first.append balanced

def Assembly.Holds (source : List Char) (tags : List Tag) (a : Assembly) : Prop :=
  ∃ definitions, Unfinished source tags a.root a.blocks definitions ∧
    (definitions.map Prod.fst).Nodup ∧ a.partials = Entries.ofPairs definitions

namespace Assembly.Holds
variable {a b : Assembly} {tags : List Tag}

theorem empty : Holds source [] Assembly.empty :=
  ⟨[], .outermost .nil, List.nodup_nil, rfl⟩

theorem add (holds : Holds source tags a) (balanced : Balanced source [tag] [node] []) :
    Holds source (tags ++ [tag]) (a.add node) := by
  obtain ⟨definitions, unfinished, distinct, partials⟩ := holds
  have added := Unfinished.append a unfinished balanced
  rw [List.append_nil] at added
  exact ⟨definitions, added, distinct, (a.add_partials node).trans partials⟩

theorem enter (holds : Holds source tags a) (opens : Opens tag key role) :
    Holds source (tags ++ [tag]) (a.enter key role) := by
  obtain ⟨definitions, unfinished, facts⟩ := holds
  have opened : Unfinished source (tags ++ [tag]) _ (⟨key, role, []⟩ :: _) (definitions ++ []) :=
    .within unfinished opens .nil
  rw [List.append_nil] at opened
  exact ⟨definitions, opened, facts⟩

theorem leave (holds : Holds source tags a) (left : a.leave source key stop = .ok b) :
    Holds source (tags ++ [.blockEnd key stop]) b := by
  obtain ⟨definitions, unfinished, distinct, partials⟩ := holds
  cases Assembly.leave_eq_ok_iff.mp left with
  | @content top inverted start pair children outside known =>
    cases unfinished with
    | @within _ _ _ earlier _ _ _ inside within _ outer opens balanced =>
      cases opens with
      | content =>
        have reads : RawText source start stop (Assembly.rawText source start stop) :=
          rawText_iff.mpr rfl
        have closed : Balanced source
            (.sectionStart inverted key start pair :: (inside ++ [.blockEnd key stop])) _ _ :=
          .content balanced reads .nil
        have added := Unfinished.append ⟨top, outside, known⟩ outer closed
        rw [List.append_nil] at added
        refine ⟨earlier ++ within, ?_, distinct, (Assembly.add_partials _ _).trans partials⟩
        rw [List.append_assoc, List.cons_append]
        exact added
  | @definition known top children outside fresh =>
    cases unfinished with
    | @within _ _ _ earlier _ _ _ inside within _ outer opens balanced =>
      cases opens with
      | definition =>
        obtain rfl : known = Entries.ofPairs (earlier ++ within) := partials
        have closed : Balanced source
            (.definitionStart key :: (inside ++ [.blockEnd key stop])) _ _ :=
          .definition balanced .nil
        have added := Unfinished.append ⟨top, outside, []⟩ outer closed
        rw [← List.append_assoc] at added
        refine ⟨earlier ++ within ++ [(key, children.reverse)], ?_, ?_, ?_⟩
        · rw [List.append_assoc, List.cons_append]
          exact added
        · exact Entries.distinct_concat distinct (Entries.notMem_of_get_ofPairs distinct fresh) _
        · rw [Entries.ofPairs_concat]

theorem feed (holds : Holds source tags a) (settled : tag.isChange = false)
    (fed : Assembly.feed source a (.ok tag) = .ok b) : Holds source (tags ++ [tag]) b := by
  cases tag with
  | text run => cases fed; exact holds.add (.text .nil)
  | interpolation key escaped => cases fed; exact holds.add (.interpolation .nil)
  | reference key indent => cases fed; exact holds.add (.reference .nil)
  | sectionStart inverted key start pair => cases fed; exact holds.enter .content
  | definitionStart key => cases fed; exact holds.enter .definition
  | blockEnd key stop => exact holds.leave fed
  | delimiterChange pair => cases settled

theorem feedAll (settled : ∀ tag ∈ more, Tag.isChange tag = false) (holds : Holds source tags a)
    (fed : (more.map Except.ok).foldlM (Assembly.feed source) a = .ok b) :
    Holds source (tags ++ more) b := by
  induction more generalizing tags a with
  | nil =>
    cases fed
    rw [List.append_nil]
    exact holds
  | cons tag more ih =>
    obtain ⟨next, first, later⟩ := Assembly.feed_cons_iff.mp fed
    have held := holds.feed (settled tag List.mem_cons_self) first
    have rest := ih (fun other member => settled other (List.mem_cons_of_mem _ member)) held later
    rw [List.append_assoc] at rest
    exact rest

end Assembly.Holds

namespace Document
variable {tags : List Tag}

theorem ofItems_eq_ok_iff : ofItems source items = .ok d ↔
    ∃ a, items.foldlM (Assembly.feed source) Assembly.empty = .ok a ∧ a.blocks = [] ∧
      d = ⟨a.root.reverse, a.partials⟩ := by
  unfold ofItems
  constructor
  · intro built
    split at built
    · cases built
    · rename_i a fed
      unfold Assembly.finish at built
      split at built
      · rename_i closed
        cases built
        exact ⟨a, fed, List.isEmpty_iff.mp closed, rfl⟩
      · cases built
  · rintro ⟨a, fed, closed, rfl⟩
    simp only [fed, Assembly.finish, closed, List.isEmpty_nil, if_true]

theorem feed_settled (source : List Char) (tags : List Tag) (a : Assembly) :
    ((tags.filter (!·.isChange)).map Except.ok).foldlM (Assembly.feed source) a =
      (tags.map Except.ok).foldlM (Assembly.feed source) a := by
  induction tags generalizing a with
  | nil => rfl
  | cons tag tags ih =>
    cases change : tag.isChange with
    | true =>
      cases tag with
      | delimiterChange pair => exact ih a
      | _ => cases change
    | false =>
      rw [List.filter_cons_of_pos (by simp [change]), List.map_cons, List.map_cons,
        List.foldlM_cons, List.foldlM_cons]
      exact congrArg _ (funext ih)

theorem ofItems_settled (source : List Char) (tags : List Tag) :
    ofItems source ((tags.filter (!·.isChange)).map Except.ok) =
      ofItems source (tags.map Except.ok) := by
  rw [ofItems, feed_settled, ofItems]

theorem ofItems_of_balanced (balanced : Balanced source tags nodes definitions)
    (distinct : (definitions.map Prod.fst).Nodup) :
    ofItems source (tags.map Except.ok) = .ok ⟨nodes, Entries.ofPairs definitions⟩ := by
  have admits : Assembly.empty.Admits definitions := ⟨distinct, fun _ _ => rfl⟩
  have fed := Assembly.feed_balanced balanced Assembly.empty admits
  rw [Assembly.empty, Assembly.addAll_of_root] at fed
  refine ofItems_eq_ok_iff.mpr ⟨_, fed, rfl, ?_⟩
  simp [Assembly.register, Entries.insertAll, Entries.ofPairs]

theorem balanced_of_ofItems (settled : ∀ tag ∈ tags, tag.isChange = false)
    (built : ofItems source (tags.map Except.ok) = .ok d) : ∃ definitions,
      Balanced source tags d.root definitions ∧ (definitions.map Prod.fst).Nodup ∧
        d.partials = Entries.ofPairs definitions := by
  obtain ⟨⟨root, blocks, partials⟩, fed, closed, rfl⟩ := ofItems_eq_ok_iff.mp built
  obtain ⟨definitions, unfinished, facts⟩ := Assembly.Holds.empty.feedAll settled fed
  obtain rfl : blocks = [] := closed
  cases unfinished with
  | outermost balanced => exact ⟨definitions, balanced, facts⟩

-- A stream makes a document exactly when its blocks balance and no two definitions share a key, at
-- whatever depth they stand. The document is then what the balanced stream stands for.
theorem ofItems_balanced (source : List Char) (tags : List Tag) :
    ((∃ d, ofItems source (tags.map Except.ok) = .ok d) ↔ ∃ nodes definitions,
      Balanced source (tags.filter (!·.isChange)) nodes definitions ∧
        (definitions.map Prod.fst).Nodup) ∧
    ∀ d, ofItems source (tags.map Except.ok) = .ok d ↔ ∃ definitions,
      Balanced source (tags.filter (!·.isChange)) d.root definitions ∧
        (definitions.map Prod.fst).Nodup ∧ d.partials.Sorted ∧
        ∀ key children, d.partials.get? key = some children ↔ (key, children) ∈ definitions := by
  have exact : ∀ d, ofItems source (tags.map Except.ok) = .ok d ↔ ∃ definitions,
      Balanced source (tags.filter (!·.isChange)) d.root definitions ∧
        (definitions.map Prod.fst).Nodup ∧ d.partials = Entries.ofPairs definitions := by
    intro d
    rw [← ofItems_settled]
    constructor
    · exact balanced_of_ofItems (fun tag member => by simpa using (List.mem_filter.mp member).2)
    · rintro ⟨definitions, balanced, distinct, partials⟩
      rw [ofItems_of_balanced balanced distinct, ← partials]
  refine ⟨⟨?_, ?_⟩, fun d => (exact d).trans ⟨?_, ?_⟩⟩
  · rintro ⟨d, built⟩
    obtain ⟨definitions, balanced, distinct, -⟩ := (exact d).mp built
    exact ⟨d.root, definitions, balanced, distinct⟩
  · rintro ⟨nodes, definitions, balanced, distinct⟩
    exact ⟨⟨nodes, Entries.ofPairs definitions⟩, (exact _).mpr ⟨definitions, balanced, distinct, rfl⟩⟩
  · rintro ⟨definitions, balanced, distinct, partials⟩
    rw [partials]
    exact ⟨definitions, balanced, distinct, Entries.sorted_ofPairs definitions,
      fun key children => Entries.get_ofPairs_iff distinct⟩
  · rintro ⟨definitions, balanced, distinct, sorted, found⟩
    refine ⟨definitions, balanced, distinct, Entries.eq_of_mem sorted (Entries.sorted_ofPairs _) ?_⟩
    rintro ⟨key, children⟩
    rw [← Entries.get_eq_some_iff sorted, found, ← Entries.get_ofPairs_iff distinct,
      Entries.get_eq_some_iff (Entries.sorted_ofPairs _)]

end Document
end Mustache
