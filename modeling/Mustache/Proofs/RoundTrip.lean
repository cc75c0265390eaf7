import Mustache.Proofs.Assembly
import Mustache.Proofs.Reading

namespace Mustache
open Text

namespace Outline

mutual
theorem feed_items (outline : Outline) (whole : source = ahead ++ outline.print pair ++ behind)
    (start : size ahead = offset) (a : Assembly) :
    (outline.items pair offset).foldlM (Assembly.feed source) a = .ok (a.add (outline.node pair)) := by
  cases outline with
  | text run => rfl
  | interpolation key escaped => rfl
  | reference key => rfl
  | block inverted key children =>
    have parts : source = (ahead ++ pair.wrap (sigil inverted :: key.toList)) ++
        printAll pair children ++ (pair.wrap ('/' :: key.toList) ++ behind) := by
      rw [whole, print]
      simp only [List.append_assoc]
    have content : size (ahead ++ pair.wrap (sigil inverted :: key.toList)) =
        offset + size (pair.wrap (sigil inverted :: key.toList)) := by
      rw [size_append, start]
    have filled := feed_itemsAll children parts content (a.enter key (.content inverted
      (offset + size (pair.wrap (sigil inverted :: key.toList))) pair))
    have left := Assembly.leave_enter a (nodes pair children) inverted key pair source
      (offset + size (pair.wrap (sigil inverted :: key.toList)))
      (offset + size (pair.wrap (sigil inverted :: key.toList)) + size (printAll pair children))
    rw [Assembly.rawText_eq parts content] at left
    rw [Outline.items, node]
    rw [Assembly.feed_cons _ rfl, Assembly.feed_append filled,
      Assembly.feed_cons (.ok (.blockEnd key _)) left]
    rfl
theorem feed_itemsAll (forest : List Outline)
    (whole : source = ahead ++ printAll pair forest ++ behind) (start : size ahead = offset)
    (a : Assembly) : (itemsAll pair offset forest).foldlM (Assembly.feed source) a =
      .ok (a.addAll (nodes pair forest)) := by
  cases forest with
  | nil => rfl
  | cons outline rest =>
    have first : source = ahead ++ outline.print pair ++ (printAll pair rest ++ behind) := by
      rw [whole, printAll]
      simp only [List.append_assoc]
    have later : source = (ahead ++ outline.print pair) ++ printAll pair rest ++ behind := by
      rw [first]
      simp only [List.append_assoc]
    have reached : size (ahead ++ outline.print pair) = offset + size (outline.print pair) := by
      rw [size_append, start]
    rw [itemsAll, Assembly.feed_append (feed_items outline first start a)]
    exact feed_itemsAll rest later reached (a.add (outline.node pair))
end

end Outline

-- A printed forest is read back as it is, and no partials with it.
theorem parseWith_printAll (prints : Delimiters.Prints pair)
    (legible : Outline.LegibleAll pair forest) :
    Document.parseWith pair (String.ofList (Outline.printAll pair forest)) =
      .ok ⟨Outline.nodes pair forest, []⟩ := by
  have started : Scan.start? (String.ofList (Outline.printAll pair forest)) pair =
      .ok (Scan.start (Outline.printAll pair forest) pair) :=
    Scan.start_eq_ok_iff.mpr ⟨prints.usable, by rw [String.toList_ofList]⟩
  have whole : Outline.printAll pair forest = [] ++ Outline.printAll pair forest ++ [] := by simp
  have built := Outline.feed_itemsAll forest whole size_nil Assembly.empty
  unfold Document.parseWith Document.ofItems
  simp only [started, items_printAll prints legible, String.toList_ofList]
  rw [built, Assembly.empty, Assembly.addAll_of_root]
  simp [Assembly.finish]

namespace Bars

def pair : Delimiters := ⟨"|", "|"⟩

def forest : List Outline := [.text "a ",
  .block true "s" [.interpolation "x" true, .text " b ", .interpolation "y" false], .reference "p"]

theorem isWord : Delimiters.IsWord "|" := Delimiters.isWord_of_all (by decide) rfl

theorem prints : pair.Prints where
  words := ⟨isWord, isWord⟩
  usable := by decide
  sigils := by rintro c ⟨⟩; decide
  braces := by decide

theorem isKey (trimmed : trim key.toList = key.toList) (closing : '|' ∉ key.toList) :
    IsKey pair key := ⟨trimmed, by rintro c ⟨⟩; exact closing⟩

theorem isRun (member : c ∈ text) (visible : isBlank c = false) (line : '\n' ∉ text)
    (opening : '|' ∉ text) : IsRun pair text :=
  ⟨⟨c, member, visible⟩, line, by rintro c ⟨⟩; exact opening, fun same => absurd same (by decide)⟩

theorem legible : Outline.LegibleAll pair forest := by
  have a : IsRun pair "a ".toList := isRun (c := 'a') (by decide) rfl (by decide) (by decide)
  have b : IsRun pair " b ".toList := isRun (c := 'b') (by decide) rfl (by decide) (by decide)
  have plain : IsPlain "x" := by rintro c ⟨⟩; decide
  have x : IsKey pair "x" := isKey rfl (by decide)
  have y : IsKey pair "y" := isKey rfl (by decide)
  have s : IsKey pair "s" := isKey rfl (by decide)
  have p : IsKey pair "p" := isKey rfl (by decide)
  refine ⟨a, by simp [Outline.isText], ⟨s, ⟨x, fun _ => plain⟩, by simp [Outline.isText], b,
    by simp [Outline.isText], ?_⟩, by simp [Outline.isText], p, by simp, trivial⟩
  exact ⟨⟨y, by simp⟩, by simp [Outline.isText], trivial⟩

end Bars

theorem parseWith_print_bars : Bars.pair.Prints ∧ Outline.LegibleAll Bars.pair Bars.forest ∧
    Document.parseWith Bars.pair "a |^s||x| b |&y||/s||>p|" =
      .ok ⟨[.text "a ", .block true "s" [.interpolation "x" true, .text " b ",
        .interpolation "y" false] "|x| b |&y|" Bars.pair, .reference "p" ""], []⟩ := by
  have printed : String.ofList (Outline.printAll Bars.pair Bars.forest) =
      "a |^s||x| b |&y||/s||>p|" := by decide
  refine ⟨Bars.prints, Bars.legible, ?_⟩
  rw [← printed]
  exact parseWith_printAll Bars.prints Bars.legible

end Mustache
