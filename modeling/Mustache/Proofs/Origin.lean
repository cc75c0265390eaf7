import Mustache.Proofs.RawText
import Mustache.Proofs.Reparse

namespace Mustache
open Text

namespace Node

mutual
def parts : Node → List Node
  | .block inverted key children raw pair =>
    .block inverted key children raw pair :: partsAll children
  | node => [node]
def partsAll : List Node → List Node
  | [] => []
  | node :: rest => node.parts ++ partsAll rest
end

theorem mem_partsAll : node ∈ partsAll nodes ↔ ∃ top ∈ nodes, node ∈ top.parts := by
  induction nodes with
  | nil => simp [partsAll]
  | cons top rest ih => simp [partsAll, ih]

theorem mem_parts_self (node : Node) : node ∈ node.parts := by
  cases node <;> simp [parts]

def All (P : Node → Prop) (node : Node) : Prop := ∀ part ∈ node.parts, P part

theorem All.self (all : All P node) : P node := all node node.mem_parts_self

theorem All.inner (all : All P (.block inverted key children raw pair)) :
    ∀ node ∈ children, All P node := by
  intro node member part inside
  refine all part ?_
  rw [parts]
  exact List.mem_cons_of_mem _ (mem_partsAll.mpr ⟨node, member, inside⟩)

end Node

def Document.parts (d : Document) : List Node :=
  Node.partsAll d.root ++ d.partials.flatMap fun entry => Node.partsAll entry.2

namespace Document
variable {d : Document} {P : Node → Prop}

theorem all_root (all : ∀ part ∈ d.parts, P part) : ∀ node ∈ d.root, node.All P :=
  fun node member part inside =>
    all part (List.mem_append_left _ (Node.mem_partsAll.mpr ⟨node, member, inside⟩))

theorem all_partials (all : ∀ part ∈ d.parts, P part) (defined : (key, nodes) ∈ d.partials) :
    ∀ node ∈ nodes, node.All P :=
  fun node member part inside => all part (List.mem_append_right _
    (List.mem_flatMap.mpr ⟨_, defined, Node.mem_partsAll.mpr ⟨node, member, inside⟩⟩))

end Document

inductive Stems : Tag → Node → Prop where
  | text : Stems (.text run) (.text run)
  | interpolation : Stems (.interpolation key escaped) (.interpolation key escaped)
  | block : Stems (.sectionStart inverted key start pair) (.block inverted key children raw pair)
  | reference : Stems (.reference key indent) (.reference key indent)

theorem Balanced.stems (balanced : Balanced source tags nodes definitions) :
    (∀ part ∈ Node.partsAll nodes, ∃ tag ∈ tags, Stems tag part) ∧
      ∀ entry ∈ definitions, ∀ part ∈ Node.partsAll entry.2, ∃ tag ∈ tags, Stems tag part := by
  induction balanced with
  | nil => simp [Node.partsAll]
  | text later ih | interpolation later ih | reference later ih =>
    obtain ⟨shown, defined⟩ := ih
    constructor
    · intro part member
      rcases List.mem_append.mp member with member | member
      · cases List.mem_singleton.mp member
        exact ⟨_, List.mem_cons_self, by constructor⟩
      · obtain ⟨tag, found, stems⟩ := shown part member
        exact ⟨tag, List.mem_cons_of_mem _ found, stems⟩
    · intro entry known part member
      obtain ⟨tag, found, stems⟩ := defined entry known part member
      exact ⟨tag, List.mem_cons_of_mem _ found, stems⟩
  | content inner reads later ihInner ih =>
    constructor
    · intro part member
      rcases List.mem_append.mp member with member | member
      · rcases List.mem_cons.mp member with rfl | member
        · exact ⟨_, List.mem_cons_self, .block⟩
        · obtain ⟨tag, found, stems⟩ := ihInner.1 part member
          exact ⟨tag, by simp [found], stems⟩
      · obtain ⟨tag, found, stems⟩ := ih.1 part member
        exact ⟨tag, by simp [found], stems⟩
    · intro entry known part member
      rcases List.mem_append.mp known with known | known
      · obtain ⟨tag, found, stems⟩ := ihInner.2 entry known part member
        exact ⟨tag, by simp [found], stems⟩
      · obtain ⟨tag, found, stems⟩ := ih.2 entry known part member
        exact ⟨tag, by simp [found], stems⟩
  | definition inner later ihInner ih =>
    constructor
    · intro part member
      obtain ⟨tag, found, stems⟩ := ih.1 part member
      exact ⟨tag, by simp [found], stems⟩
    · intro entry known part member
      rcases List.mem_append.mp known with known | known
      · obtain ⟨tag, found, stems⟩ := ihInner.2 entry known part member
        exact ⟨tag, by simp [found], stems⟩
      · rcases List.mem_cons.mp known with rfl | known
        · obtain ⟨tag, found, stems⟩ := ihInner.1 part member
          exact ⟨tag, by simp [found], stems⟩
        · obtain ⟨tag, found, stems⟩ := ih.2 entry known part member
          exact ⟨tag, by simp [found], stems⟩

namespace Scan

inductive Meets : Scan → Stretch → Prop where
  | here (met : stretch? s = some t) : Meets s t
  | later (met : stretch? s = some u) (onward : Meets u.next t) : Meets s t

theorem Meets.invariant {P : Scan → Prop} (kept : ∀ t : Stretch, t.Sound → P t.scan → P t.next)
    (meets : Meets s t) (begins : P s) : P t.scan ∧ t.Sound := by
  induction meets with
  | here met =>
    obtain ⟨rfl, sound, -⟩ := stretch_sound met
    exact ⟨begins, sound⟩
  | later met onward ih =>
    obtain ⟨rfl, sound, -⟩ := stretch_sound met
    exact ih (kept _ sound begins)

theorem trailing_eq (trailing : round s = .trailing run next) : run = s.rest := by
  unfold round at trailing
  split at trailing
  · cases trailing
  · split at trailing
    · cases trailing
      rfl
    · split at trailing <;> cases trailing

theorem mem_itemsFrom (done : List Item) (s : Scan) (member : .ok tag ∈ s.itemsFrom done) :
    .ok tag ∈ done ∨ (∃ run, tag = .text (String.ofList run) ∧ run ⊆ s.rest) ∨
      ∃ t, Meets s t ∧ t.tag = some tag := by
  rw [itemsFrom] at member
  split at member
  · exact Or.inl (List.mem_reverse.mp member)
  · rename_i text next trailing
    rcases List.mem_cons.mp (List.mem_reverse.mp member) with same | member
    · cases same
      exact Or.inr (Or.inl ⟨text, rfl, by rw [trailing_eq trailing]; exact List.Subset.refl _⟩)
    · exact Or.inl member
  · rcases List.mem_cons.mp (List.mem_reverse.mp member) with same | member
    · cases same
    · exact Or.inl member
  · rename_i text own next tagged
    obtain ⟨t, met, rfl, rfl, rfl⟩ := stretch_of_round tagged
    obtain ⟨here, sound, -⟩ := stretch_sound met
    obtain ⟨taken, whole, -⟩ := sound.next_rest
    have lead := sound.whole
    rw [here] at whole lead
    have handed (yields : .ok tag ∈ (yielded t.kept t.tag).reverse ++ done) :
        .ok tag ∈ done ∨ (∃ run, tag = .text (String.ofList run) ∧ run ⊆ s.rest) ∨
          ∃ u, Meets s u ∧ u.tag = some tag := by
      rcases List.mem_append.mp yields with yields | yields
      · rcases mem_yielded (List.mem_reverse.mp yields) with run | own
        · refine Or.inr (Or.inl ⟨_, run, fun c inside => ?_⟩)
          rw [lead, t.kept_dropped]
          simp [inside]
        · exact Or.inr (Or.inr ⟨t, .here met, own⟩)
      · exact Or.inl yields
    dsimp only at member
    split at member
    · rename_i moved
      rcases mem_itemsFrom _ t.next member with yields | ⟨run, same, sub⟩ | ⟨u, meets, found⟩
      · exact handed yields
      · refine Or.inr (Or.inl ⟨run, same, fun c inside => ?_⟩)
        rw [whole]
        exact List.mem_append_right _ (sub inside)
      · exact Or.inr (Or.inr ⟨u, .later met meets, found⟩)
    · exact handed (List.mem_reverse.mp member)
termination_by s.rest.length
decreasing_by exact stretch_shorter met ‹_›

theorem mem_stretches (meets : Meets s t) (extent : s.active.HasExtent) : t ∈ s.stretches := by
  induction meets with
  | here met =>
    rw [(stretches_of_some met extent).1]
    exact List.mem_cons_self
  | later met onward ih =>
    rw [(stretches_of_some met extent).1]
    obtain ⟨rfl, -⟩ := stretch_sound met
    exact List.mem_cons_of_mem _ (ih (Stretch.next_hasExtent extent))

end Scan

namespace Tag

theorem keyOf_piece (body : List Char) : (keyOf body).toList <:+: body := by
  rw [keyOf, String.toList_ofList]
  have front : (trim body).reverse <:+ (trimStart body).reverse := by
    rw [trim, List.reverse_reverse]
    exact List.dropWhile_suffix isSpace
  exact (List.reverse_suffix.mp front).isInfix.trans (List.dropWhile_suffix isSpace).isInfix

theorem braced_eq (found : braced? body = some word) : body = ['{'] ++ word ++ ['}'] := by
  unfold braced? at found
  split at found
  · rename_i rest
    split at found
    · rename_i kept reversed
      split at found
      · cases found
      · cases found
        rw [← List.reverse_reverse rest, reversed]
        simp
    · cases found
  · cases found

def key? : Tag → Option String
  | .interpolation key _ | .sectionStart _ key _ _ | .definitionStart key | .reference key _ |
    .blockEnd key _ => some key
  | .text _ | .delimiterChange _ => none

theorem key_piece (found : ofBody active span indent body = some tag) (named : tag.key? = some key) :
    key.toList <:+: body := by
  cases body with
  | nil =>
    cases found
    cases named
    exact List.infix_rfl
  | cons first rest =>
    have behind (same : keyOf rest = key) : key.toList <:+: first :: rest :=
      same ▸ (keyOf_piece rest).trans (List.suffix_cons first rest).isInfix
    unfold ofBody at found
    dsimp only at found
    split at found
    case h_1 => cases found
    case h_8 =>
      split at found
      · cases found
      · split at found <;> cases found
        cases named
    case h_9 =>
      split at found
      · rename_i word standard
        cases found
        cases named
        split at standard
        · rw [braced_eq standard]
          exact (keyOf_piece word).trans (List.infix_append _ word _)
        · cases standard
      · cases found
        cases named
        exact keyOf_piece _
    -- In all other cases the key stands behind the first character.
    all_goals
      cases found
      exact behind (Option.some.inj named)

theorem not_comment (found : ofBody active span indent body = some tag) : body.head? ≠ some '!' := by
  intro begins
  obtain ⟨rest, rfl⟩ := List.head?_eq_some_iff.mp begins
  cases found

end Tag

namespace Document
variable {d : Document}

-- Every node of a document is a run of the source or stands for a tag of the source.
theorem parts_of_parsed (parsed : parseWith pair source = .ok d) : ∀ part ∈ d.parts,
    (∃ run, part = .text (String.ofList run) ∧ run ⊆ source.toList) ∨
      ∃ t tag, (Scan.start source.toList pair).Meets t ∧ t.tag = some tag ∧ Stems tag part := by
  obtain ⟨-, built⟩ := parseWith_eq_ok_iff.mp parsed
  obtain ⟨definitions, balanced, distinct, partials⟩ := balanced_of_items built
  obtain ⟨shown, defined⟩ := balanced.stems
  intro part member
  obtain ⟨tag, found, stems⟩ : ∃ tag ∈ settled (Scan.start source.toList pair).items, Stems tag part := by
    rcases List.mem_append.mp member with member | member
    · exact shown part member
    · obtain ⟨entry, known, member⟩ := List.mem_flatMap.mp member
      rw [partials] at known
      exact defined entry ((Entries.ofPairs_perm distinct).mem_iff.mp known) part member
  rcases Scan.mem_itemsFrom [] _ (mem_of_mem_settled found) with none | ⟨run, rfl, sub⟩ | ⟨t, meets, own⟩
  · cases none
  · cases stems
    exact Or.inl ⟨run, rfl, sub⟩
  · exact Or.inr ⟨t, tag, meets, own, stems⟩

theorem usable_of_parsed (parsed : parseWith pair source = .ok d)
    (section' : .block inverted key children raw own ∈ d.parts) : own.isUsable = true := by
  obtain ⟨usable, -⟩ := parseWith_eq_ok_iff.mp parsed
  rcases parts_of_parsed parsed _ section' with ⟨run, same, -⟩ | ⟨t, tag, meets, found, stems⟩
  · cases same
  · cases stems
    rw [t.tag_eq] at found
    rw [(Tag.ofBody_sectionStart found).2]
    exact (meets.invariant (P := fun s => s.active.isUsable = true)
      (fun _ _ => Stretch.next_usable) usable).1

theorem blank_of_parsed (parsed : parseWith pair source = .ok d)
    (reference : .reference key indent ∈ d.parts) : ∀ c ∈ indent.toList, isBlank c = true := by
  rcases parts_of_parsed parsed _ reference with ⟨run, same, -⟩ | ⟨t, tag, meets, found, stems⟩
  · cases same
  · cases stems
    obtain ⟨-, sound⟩ := meets.invariant (P := fun _ => True) (fun _ _ _ => trivial) trivial
    rw [t.tag_eq] at found
    rw [Tag.ofBody_reference found, String.toList_ofList]
    unfold Stretch.dropped
    split
    · exact sound.opens.indented
    · simp

end Document
end Mustache
