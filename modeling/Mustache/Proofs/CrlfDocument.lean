import Mustache.Proofs.Balance
import Mustache.Proofs.CrlfScan
import Mustache.Proofs.RawText

namespace Mustache
open Text

namespace Entries
variable {α β : Type} {f : String → String} {g : α → β} {entries : Entries α}

def rekey (f : String → String) (g : α → β) (entries : Entries α) : Entries β :=
  ofPairs (entries.map fun entry => (f entry.1, g entry.2))

theorem rekey_distinct (inj : Function.Injective f) (sorted : Sorted entries) :
    ((entries.map fun entry => (f entry.1, g entry.2)).map Prod.fst).Nodup := by
  rw [List.map_map]
  refine (List.pairwise_map.mpr ?_)
  refine sorted.imp fun {one other} below same => ?_
  rw [inj same] at below
  exact String.lt_irrefl _ below

theorem sorted_rekey (f : String → String) (g : α → β) (entries : Entries α) :
    Sorted (rekey f g entries) :=
  sorted_ofPairs _

theorem mem_rekey (inj : Function.Injective f) (sorted : Sorted entries) :
    entry ∈ rekey f g entries ↔ ∃ own ∈ entries, (f own.1, g own.2) = entry := by
  rw [rekey, (ofPairs_perm (rekey_distinct inj sorted)).mem_iff, List.mem_map]

theorem get_rekey (inj : Function.Injective f) (sorted : Sorted entries) (key : String) :
    get? (f key) (rekey f g entries) = (get? key entries).map g := by
  cases found : get? key entries with
  | some value =>
    refine (get_eq_some_iff (sorted_rekey f g entries)).mpr ?_
    exact (mem_rekey inj sorted).mpr ⟨_, (get_eq_some_iff sorted).mp found, rfl⟩
  | none =>
    cases there : get? (f key) (rekey f g entries) with
    | none => rfl
    | some value =>
      have behind := (get_eq_some_iff (sorted_rekey f g entries)).mp there
      obtain ⟨⟨own, old⟩, member, same⟩ := (mem_rekey inj sorted).mp behind
      obtain rfl : own = key := inj (congrArg Prod.fst same)
      rw [(get_eq_some_iff sorted).mpr member] at found
      cases found

theorem rekey_insert (inj : Function.Injective f) (sorted : Sorted entries)
    (fresh : get? key entries = none) (value : α) :
    rekey f g (insert key value entries) = insert (f key) (g value) (rekey f g entries) := by
  have fresh' : get? (f key) (rekey f g entries) = none := by rw [get_rekey inj sorted, fresh]; rfl
  refine eq_of_mem (sorted_rekey f g _) (sorted_insert (sorted_rekey f g entries)) fun entry => ?_
  rw [mem_rekey inj (sorted_insert sorted), (insert_perm fresh' (g value)).mem_iff, List.mem_cons,
    mem_rekey inj sorted]
  simp only [(insert_perm fresh value).mem_iff, List.mem_cons, exists_eq_or_imp, eq_comm]

end Entries

namespace Node

mutual
def crlf : Node → Node
  | .text run => .text (crlfText run)
  | .interpolation key escaped => .interpolation (crlfText key) escaped
  | .block inverted key children raw pair =>
    .block inverted (crlfText key) (crlfAll children) (crlfText raw) pair
  | .reference key indent => .reference (crlfText key) indent
def crlfAll : List Node → List Node
  | [] => []
  | node :: rest => node.crlf :: crlfAll rest
end

theorem crlfAll_eq_map (nodes : List Node) : crlfAll nodes = nodes.map crlf := by
  induction nodes with
  | nil => rfl
  | cons node nodes ih => rw [crlfAll, ih, List.map_cons]

theorem crlfAll_reverse (nodes : List Node) : crlfAll nodes.reverse = (crlfAll nodes).reverse := by
  rw [crlfAll_eq_map, crlfAll_eq_map, List.map_reverse]

end Node

def Document.crlf (d : Document) : Document :=
  ⟨Node.crlfAll d.root, d.partials.rekey crlfText Node.crlfAll⟩

theorem crlfOffset_cases (source : List Char) (offset : Nat) :
    (∃ before after, source = before ++ after ∧ offset = size before ∧
      crlfOffset source offset = size (crlf before)) ∨
    crlfOffset source offset = size (crlf source) + 1 := by
  cases found : cut? offset source with
  | none => exact Or.inr (by rw [crlfOffset, found])
  | some parts =>
    obtain ⟨whole, here⟩ := cut_eq_some_iff.mp found
    exact Or.inl ⟨_, _, whole, here.symm, here ▸ crlfOffset_eq whole⟩

theorem rawText_crlf (source : List Char) (start stop : Nat) :
    Assembly.rawText (crlf source) (crlfOffset source start) (crlfOffset source stop) =
      crlfText (Assembly.rawText source start stop) := by
  have reads : RawText source start stop _ := rawText_iff.mpr rfl
  generalize Assembly.rawText source start stop = raw at reads
  cases reads with
  | @range before text after whole starts stops =>
    subst starts stops
    rw [← size_append, crlfOffset_eq whole, crlfOffset_eq (whole.trans (List.append_assoc _ _ _)),
      crlf_append, size_append, crlfText_ofList]
    have converted : crlf source = crlf before ++ crlf text ++ crlf after := by
      rw [whole, crlf_append, crlf_append]
    exact Assembly.rawText_eq converted rfl
  | none absent =>
    refine (rawText_iff.mp (.none fun before text after whole starts stops => ?_)).symm
    have room := congrArg size whole
    simp only [size_append] at room
    rcases crlfOffset_cases source start with ⟨p, p', parts, rfl, first⟩ | beyond
    · rcases crlfOffset_cases source stop with ⟨q, q', parts', rfl, last⟩ | beyond
      · rw [first] at starts
        rw [last] at stops
        rcases Nat.le_total (size p) (size q) with order | order
        · obtain ⟨between, rfl, -⟩ := append_of_size_le (parts.symm.trans parts') order
          refine absent p between q' parts' rfl ?_
          rw [size_append]
        · obtain ⟨between, rfl, rest⟩ := append_of_size_le (parts'.symm.trans parts) order
          have none : size (crlf between) = 0 := by
            simp only [crlf_append, size_append] at starts
            omega
          obtain rfl := crlf_eq_nil.mp (size_eq_zero.mp none)
          refine absent q [] q' (by rw [List.append_nil, parts']) (by simp) (by simp)
      · omega
    · omega

def BlockRole.crlf (source : List Char) : BlockRole → BlockRole
  | .content inverted start pair => .content inverted (crlfOffset source start) pair
  | .definition => .definition

def OpenBlock.crlf (source : List Char) (block : OpenBlock) : OpenBlock :=
  ⟨crlfText block.key, block.role.crlf source, Node.crlfAll block.children⟩

namespace Assembly
variable {source : List Char} {a b : Assembly} {items : List Item}

def crlf (source : List Char) (a : Assembly) : Assembly :=
  ⟨Node.crlfAll a.root, a.blocks.map (OpenBlock.crlf source), a.partials.rekey crlfText Node.crlfAll⟩

theorem crlfText_injective : Function.Injective crlfText := fun _ _ => crlfText_inj.mp

theorem add_crlf (source : List Char) (a : Assembly) (node : Node) :
    (a.crlf source).add node.crlf = (a.add node).crlf source := by
  obtain ⟨root, blocks, partials⟩ := a
  cases blocks <;> rfl

theorem leave_crlf (sorted : a.partials.Sorted) (key : String) (stop : Nat) :
    (a.crlf source).leave (Text.crlf source) (crlfText key) (crlfOffset source stop) =
      crlfResult source (crlf source) (a.leave source key stop) := by
  obtain ⟨root, blocks, partials⟩ := a
  cases blocks with
  | nil => rfl
  | cons block outer =>
    obtain ⟨own, role, children⟩ := block
    simp only [leave, crlf, List.map_cons, OpenBlock.crlf, crlfText_inj]
    split
    · cases role with
      | content inverted start pair =>
        simp only [BlockRole.crlf, rawText_crlf]
        rw [← Node.crlfAll_reverse]
        exact congrArg Except.ok (add_crlf source ⟨root, outer, partials⟩
          (.block inverted key children.reverse _ pair))
      | definition =>
        simp only [BlockRole.crlf, Entries.get_rekey crlfText_injective sorted]
        cases fresh : partials.get? key with
        | some known => rfl
        | none =>
          simp only [Option.map_none, ← Node.crlfAll_reverse]
          rw [← Entries.rekey_insert crlfText_injective sorted fresh]
          rfl
    · rfl

theorem feed_crlf (sorted : a.partials.Sorted) (item : Item) :
    feed (Text.crlf source) (a.crlf source) (crlfItem source item) =
      crlfResult source (crlf source) (feed source a item) := by
  cases item with
  | error fault => rfl
  | ok tag =>
    cases tag with
    | text run => exact congrArg Except.ok (add_crlf source a (.text run))
    | interpolation key escaped => exact congrArg Except.ok (add_crlf source a (.interpolation key escaped))
    | reference key indent => exact congrArg Except.ok (add_crlf source a (.reference key indent))
    | blockEnd key stop => exact leave_crlf sorted key stop
    | sectionStart inverted key start pair => rfl
    | definitionStart key => rfl
    | delimiterChange pair => rfl

theorem feed_sorted (fed : feed source a item = .ok b) (sorted : a.partials.Sorted) :
    b.partials.Sorted := by
  cases item with
  | error fault => cases fed
  | ok tag =>
    cases tag with
    | text _ | interpolation _ _ | reference _ _ => cases fed; rw [add_partials]; exact sorted
    | sectionStart _ _ _ _ | definitionStart _ | delimiterChange _ => cases fed; exact sorted
    | blockEnd key stop =>
      cases leave_eq_ok_iff.mp fed with
      | content => rw [add_partials]; exact sorted
      | definition fresh => exact Entries.sorted_insert sorted

theorem feedAll_crlf (sorted : a.partials.Sorted) (items : List Item) :
    (items.map (crlfItem source)).foldlM (feed (Text.crlf source)) (a.crlf source) =
      crlfResult source (crlf source) (items.foldlM (feed source) a) := by
  induction items generalizing a with
  | nil => rfl
  | cons item items ih =>
    rw [List.map_cons, List.foldlM_cons, List.foldlM_cons, feed_crlf sorted]
    cases fed : feed source a item with
    | error fault => rfl
    | ok b => exact ih (feed_sorted fed sorted)

theorem finish_crlf (source : List Char) (a : Assembly) :
    (a.crlf source).finish = crlfResult source Document.crlf a.finish := by
  obtain ⟨root, blocks, partials⟩ := a
  cases blocks with
  | nil =>
    simp only [finish, crlf, List.map_nil, List.isEmpty_nil, if_true, ← Node.crlfAll_reverse]
    rfl
  | cons block outer =>
    simp only [finish, crlf, List.map_cons, List.isEmpty_cons, Bool.false_eq_true, if_false]
    refine congrArg (fun keys => Except.error (ParseError.unterminatedBlocks keys)) ?_
    simp [OpenBlock.crlf, Function.comp_def]

end Assembly

namespace Document

theorem ofItems_crlf (source : List Char) (items : List Item) :
    ofItems (Text.crlf source) (items.map (crlfItem source)) =
      crlfResult source crlf (ofItems source items) := by
  have sorted : Assembly.empty.partials.Sorted := List.Pairwise.nil
  have fed : (items.map (crlfItem source)).foldlM (Assembly.feed (Text.crlf source)) Assembly.empty =
      crlfResult source (Assembly.crlf source) (items.foldlM (Assembly.feed source) Assembly.empty) :=
    Assembly.feedAll_crlf sorted items
  unfold ofItems
  rw [fed]
  cases items.foldlM (Assembly.feed source) Assembly.empty with
  | error fault => rfl
  | ok a => exact a.finish_crlf source

end Document

theorem unclosed_place (s : Scan) (extent : s.active.HasExtent) (fresh : s.waiting = none)
    (upto : s.Upto source) (unclosed : .error (.unclosedTag offset) ∈ s.items) :
    ∃ before after, source = before ++ after ∧ size before = offset := by
  induction s, extent using Scan.stretch_induction with
  | ended s extent ended =>
    obtain ⟨ahead, whole, here⟩ := upto
    rw [Scan.items_of_none ended fresh] at unclosed
    rcases Scan.ending_cases ended with ⟨-, ending⟩ | ⟨-, -, ending⟩ | ⟨o, fits, -, ending⟩
    · rw [ending] at unclosed
      cases unclosed
    · rw [ending, List.mem_singleton] at unclosed
      cases unclosed
    · rw [ending, List.mem_singleton] at unclosed
      cases unclosed
      refine ⟨ahead ++ o.lead, s.active.opening.toList ++ o.rest, ?_, by rw [size_append, here]⟩
      rw [whole, fits.whole]
      simp only [List.append_assoc]
  | step s t extent later met ih =>
    obtain ⟨rfl, sound, -⟩ := Scan.stretch_sound met
    rw [Scan.items_of_some met extent fresh] at unclosed
    rcases List.mem_append.mp unclosed with member | member
    · unfold Scan.yielded at member
      cases t.kept.isEmpty <;> cases t.tag <;> simp at member
    · exact ih rfl (Scan.Upto.next t sound upto) member

namespace Document

theorem parse_converted (words : pair.Words) (bare : '\r' ∉ source.toList) :
    parseWith pair (crlfText source) =
      ((parseWith pair source).map crlf).mapError (ParseError.crlf source.toList) := by
  have items := (Converts.start source.toList pair bare).items words rfl rfl
  cases usable : pair.isUsable with
  | false => simp only [parseWith, Scan.start?, usable]; rfl
  | true =>
    simp only [parseWith, Scan.start?, usable, if_true, toList_crlfText, items]
    exact ofItems_crlf _ _

-- A source and the converted source are read alike. Where one of them is no template, neither is the
-- other, and for the same reason.
theorem parseWith_crlf (words : pair.Words) (bare : '\r' ∉ source.toList) :
    parseWith pair (crlfText source) =
      ((parseWith pair source).map crlf).mapError (ParseError.crlf source.toList) ∧
    ∀ offset, parseWith pair source = .error (.unclosedTag offset) → ∃ before after,
      source.toList = before ++ after ∧ size before = offset ∧
        parseWith pair (crlfText source) = .error (.unclosedTag (size (Text.crlf before))) := by
  have same := parse_converted words bare
  refine ⟨same, fun offset failed => ?_⟩
  have begun : ofItems source.toList (Scan.start source.toList pair).items =
      .error (.unclosedTag offset) := by
    unfold parseWith at failed
    split at failed
    · rename_i fault refused
      cases failed
      unfold Scan.start? at refused
      split at refused <;> cases refused
    · rename_i s begun
      obtain ⟨-, rfl⟩ := Scan.start_eq_ok_iff.mp begun
      exact failed
  obtain ⟨before, after, whole, here⟩ := unclosed_place (Scan.start source.toList pair)
    words.clear.hasExtent rfl (Scan.upto_start source.toList pair)
    ((fault_of_items begun).resolve_right fun other => other.2 offset rfl)
  refine ⟨before, after, whole, here, ?_⟩
  rw [same, failed, ← here]
  exact congrArg (fun place => Except.error (ParseError.unclosedTag place)) (crlfOffset_eq whole)

end Document

namespace Lines

def source : String :=
  "\x7b\x7b<p\x7d\x7d\na\n\x7b\x7b/p\x7d\x7d\n \x7b\x7b>p\x7d\x7d\n\x7b\x7b#k\nl\x7d\x7d\nx\n\n\x7b\x7b/k\nl\x7d\x7d."

def document : Document :=
  ⟨[.reference "p" " ", .block false "k\nl" [.text "x\n\n"] "\nx\n\n" .standard, .text "."],
    [("p", [.text "a\n"])]⟩

theorem parsed : Document.parseWith .standard source = .ok document := by decide +kernel

end Lines

open Lines in
theorem Document.parseWith_crlf_lines : Delimiters.standard.Words ∧ '\r' ∉ source.toList ∧
    parseWith .standard source = .ok document ∧
    parseWith .standard (crlfText source) = .ok
      ⟨[.reference "p" " ",
        .block false "k\r\nl" [.text "x\r\n\r\n"] "\r\nx\r\n\r\n" .standard, .text "."],
        [("p", [.text "a\r\n"])]⟩ := by
  have bare : '\r' ∉ source.toList := by decide
  have same := (parseWith_crlf Delimiters.standard_words bare).1
  rw [parsed] at same
  exact ⟨Delimiters.standard_words, bare, parsed, same.trans (congrArg Except.ok (by decide +kernel))⟩

end Mustache
