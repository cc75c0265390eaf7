import Mathlib.Control.Monad.Basic
import Mustache.Proofs.Stretch

namespace Mustache
open Text

-- How a scan cuts the text before it into gaps and tags, and the items that it hands out for them.
-- The scan stands at the byte `offset` in a gap, of which the tag before has taken `skipped`. The
-- gap ends where the open delimiter of the active pair stands first, and the tag there where its
-- close delimiter does. Of a gap only the end of a line at its front and blanks at its back may be
-- missing from what is handed out.
inductive Cut : (offset : Nat) → (active : Delimiters) → (blocks : List BlockKind) →
    (skipped text : List Char) → (items : List Item) → Prop where
  | trailing (absent : ¬ active.opening.toList <:+: skipped ++ gap) :
      Cut offset active blocks skipped gap (Scan.yielded gap none)
  | unclosed
      (opens : First active.opening.toList (skipped ++ (gap ++ active.opening.toList ++ inside))
        (skipped ++ gap))
      (absent : ¬ active.closing.toList <:+: inside) :
      Cut offset active blocks skipped (gap ++ active.opening.toList ++ inside)
        [.error (.unclosedTag (offset + size gap))]
  | tag (behind : inside = body ++ active.closing.toList ++ (taken ++ rest))
      (opens : First active.opening.toList
        (skipped ++ (kept ++ dropped ++ active.opening.toList ++ inside))
        (skipped ++ (kept ++ dropped)))
      (ends : Closing.Ends active.closing.toList inside body (taken ++ rest))
      (blank : ∀ c ∈ dropped, isBlank c = true)
      (line : taken = [] ∨ IsLineEnd taken rest)
      (starts : start = offset + size (kept ++ dropped))
      (stops : stop = start + size (active.opening.toList ++ body ++ active.closing.toList))
      (reads : tag = Tag.ofBody active ⟨start, stop⟩ dropped body)
      (later : Cut (stop + size taken) (activeAfter tag blocks active) (blocksAfter tag blocks)
        taken rest items) :
      Cut offset active blocks skipped (kept ++ dropped ++ active.opening.toList ++ inside)
        (Scan.yielded kept tag ++ items)

namespace Delimiters.Clear
variable {pair : Delimiters}

theorem first_behind (clear : pair.Clear) (edges : ∀ c ∈ skipped, isEdge c = true)
    (first : First pair.opening.toList text lead) :
    First pair.opening.toList (skipped ++ text) (skipped ++ lead) := by
  obtain ⟨c, rest, opens, inked⟩ := clear.opens
  rw [opens] at first ⊢
  exact first.behind fun member => by rw [edges c member] at inked; cases inked

theorem absent_behind (clear : pair.Clear) (edges : ∀ c ∈ skipped, isEdge c = true)
    (absent : ¬ pair.opening.toList <:+: text) : ¬ pair.opening.toList <:+: skipped ++ text := by
  obtain ⟨c, rest, opens, inked⟩ := clear.opens
  rw [opens] at absent ⊢
  exact fun stands => absent
    (infix_behind stands fun member => by rw [edges c member] at inked; cases inked)

theorem opens_first (clear : pair.Clear)
    (fits : Opening.Fits pair.opening.toList sourceStart text o) :
    First pair.opening.toList text o.lead := by
  obtain ⟨c, rest, opens, inked⟩ := clear.opens
  rw [opens] at fits ⊢
  exact fits.first inked

end Delimiters.Clear

theorem yielded_text (text : List Char) (nonempty : text ≠ []) :
    [Except.ok (Tag.text (String.ofList text))] = Scan.yielded text none := by
  simp [Scan.yielded, List.isEmpty_iff, nonempty]

theorem cut_of_none (ended : Scan.stretch? s = none) (clear : s.active.Clear)
    (edges : ∀ c ∈ skipped, isEdge c = true) :
    Cut s.offset s.active s.blocks skipped s.rest s.ending := by
  rcases Scan.ending_cases ended with ⟨empty, ending⟩ | ⟨full, absent, ending⟩ |
    ⟨o, fits, absent, ending⟩
  · rw [empty, ending]
    refine .trailing (clear.absent_behind edges fun stands => ?_)
    obtain ⟨c, rest, opens, -⟩ := clear.opens
    rw [opens] at stands
    cases List.infix_nil.mp stands
  · rw [ending, yielded_text _ full]
    exact .trailing (clear.absent_behind edges absent)
  · rw [ending]
    have first := clear.first_behind edges (clear.opens_first fits)
    rw [fits.whole] at first ⊢
    exact .unclosed first absent

theorem cut_of_some (met : Scan.stretch? s = some t) (clear : s.active.Clear)
    (edges : ∀ c ∈ skipped, isEdge c = true)
    (later : Cut t.next.offset t.next.active t.next.blocks t.skipped t.next.rest items) :
    Cut s.offset s.active s.blocks skipped s.rest (Scan.yielded t.kept t.tag ++ items) := by
  obtain ⟨rfl, sound, -⟩ := Scan.stretch_sound met
  have first := clear.first_behind edges (clear.opens_first sound.opens)
  have ends := sound.ends
  rw [sound.opens.whole, t.kept_dropped] at first ⊢
  rw [t.skipped_rest] at ends
  refine .tag ends.append first ends ?_ ?_ ?_ t.span_stop t.tag_eq later
  · intro c member
    unfold Stretch.dropped at member
    split at member
    · exact sound.opens.indented c member
    · cases member
  · rcases cutLineEnd_fst (t.isStandalone || t.closes) t.closing.rest with none | ⟨-, lineEnd⟩
    · exact Or.inl none
    · exact Or.inr lineEnd
  · rw [← t.kept_dropped, t.span_start]

theorem scan_cut (s : Scan) (extent : s.active.HasExtent) (clear : s.active.Clear)
    (fresh : s.waiting = none) (edges : ∀ c ∈ skipped, isEdge c = true) :
    Cut s.offset s.active s.blocks skipped s.rest s.items := by
  induction s, extent using Scan.stretch_induction generalizing skipped with
  | ended s extent ended =>
    rw [Scan.items_of_none ended fresh]
    exact cut_of_none ended clear edges
  | step s t extent later met ih =>
    rw [Scan.items_of_some met extent fresh]
    have same := (Scan.stretch_sound met).1
    refine cut_of_some met clear edges (ih (Stretch.next_clear (same ▸ clear)) rfl ?_)
    exact cutLineEnd_edges _ _

-- A scan that begins with a clear pair loses, repeats and reorders nothing.
theorem items_cut_source (begun : Scan.start? source pair = .ok s) (clear : pair.Clear) :
    Cut 0 pair [] [] source.toList s.items := by
  obtain ⟨-, rfl⟩ := Scan.start_eq_ok_iff.mp begun
  exact scan_cut (Scan.start source.toList pair) clear.hasExtent clear rfl (by simp)

namespace Layout

def source : String :=
  "é\x7b\x7ba\x7d\x7d\n \x7b\x7b! c\x7d\x7d \n\x7b\x7b=| |=\x7d\x7d\n|<p|x|/p|\ny"

def scan : Scan := Scan.start source.toList .standard

end Layout

open Layout in
theorem items_cut_layout : Scan.start? source .standard = .ok scan ∧ Delimiters.standard.Clear ∧
    Cut 0 .standard [] [] source.toList scan.items ∧
    scan.items = [.ok (.text "é"), .ok (.interpolation "a" true), .ok (.text "\n"),
      .ok (.delimiterChange ⟨"|", "|"⟩), .ok (.definitionStart "p"), .ok (.text "x"),
      .ok (.blockEnd "p" 33), .ok (.text "y")] := by
  have begun := Scan.start_standard source
  have clear := Delimiters.standard_words.clear
  exact ⟨begun, clear, items_cut_source begun clear, by decide +kernel⟩

end Mustache
