import Mustache.Proofs.CrlfIndent
import Mustache.Render.Walk

namespace Mustache
open Text

namespace Text

def cutLines : List Char → List (List Char)
  | [] => [[]]
  | c :: text => if c = '\n' then [c] :: cutLines text else (cutLines text).modifyHead (c :: ·)

theorem cutLines_feed (text : List Char) : cutLines ('\n' :: text) = ['\n'] :: cutLines text := rfl

theorem cutLines_visible (other : c ≠ '\n') (text : List Char) :
    cutLines (c :: text) = (cutLines text).modifyHead (c :: ·) := if_neg other

theorem cutLines_eq_cons (text : List Char) : ∃ head later, cutLines text = head :: later := by
  induction text with
  | nil => exact ⟨[], [], rfl⟩
  | cons c text ih =>
    obtain ⟨head, later, cut⟩ := ih
    by_cases feed : c = '\n'
    · subst feed
      exact ⟨['\n'], cutLines text, rfl⟩
    · refine ⟨c :: head, later, ?_⟩
      rw [cutLines_visible feed, cut, List.modifyHead_cons]

theorem flatten_cutLines (text : List Char) : (cutLines text).flatten = text := by
  induction text with
  | nil => rfl
  | cons c text ih =>
    by_cases feed : c = '\n'
    · subst feed
      rw [cutLines_feed, List.flatten_cons, ih, List.singleton_append]
    · obtain ⟨head, later, cut⟩ := cutLines_eq_cons text
      rw [cut, List.flatten_cons] at ih
      rw [cutLines_visible feed, cut, List.modifyHead_cons, List.flatten_cons, List.cons_append, ih]

theorem cutLines_ends (text : List Char) : ∃ (bodies : List (List Char)) (last : List Char),
    cutLines text = bodies.map (· ++ ['\n']) ++ [last] ∧
      (∀ body ∈ bodies, '\n' ∉ body) ∧ '\n' ∉ last := by
  induction text with
  | nil => exact ⟨[], [], rfl, by simp, by simp⟩
  | cons c text ih =>
    obtain ⟨bodies, last, cut, flat, bare⟩ := ih
    by_cases feed : c = '\n'
    · subst feed
      refine ⟨[] :: bodies, last, ?_, List.forall_mem_cons.mpr ⟨by simp, flat⟩, bare⟩
      rw [cutLines_feed, cut]
      rfl
    · have extended {line : List Char} (flat : '\n' ∉ line) : '\n' ∉ c :: line := by
        simpa [Ne.symm feed] using flat
      rw [cutLines_visible feed, cut]
      cases bodies with
      | nil => exact ⟨[], c :: last, rfl, by simp, extended bare⟩
      | cons body bodies =>
        obtain ⟨here, others⟩ := List.forall_mem_cons.mp flat
        exact ⟨(c :: body) :: bodies, last, rfl, List.forall_mem_cons.mpr ⟨extended here, others⟩, bare⟩

end Text

namespace Indent

theorem opensWithBreak_iff : opensWithBreak text = true ↔ ['\n'] <+: text ∨ ['\r', '\n'] <+: text := by
  constructor
  · intro opens
    unfold opensWithBreak at opens
    split at opens
    · exact Or.inl (List.prefix_append ['\n'] _)
    · exact Or.inr (List.prefix_append ['\r', '\n'] _)
    · cases opens
  · intro front
    rcases front with ⟨rest, rfl⟩ | ⟨rest, rfl⟩
    · rfl
    · rfl

theorem isOver_iff : isOver text = true ↔ text = [] ∨ text = ['\n'] := by
  constructor
  · intro ended
    unfold isOver at ended
    split at ended
    · exact Or.inl rfl
    · exact Or.inr rfl
    · cases ended
  · intro ends
    rcases ends with rfl | rfl
    · rfl
    · rfl

structure Row where
  line : List Char
  indented : Bool
deriving DecidableEq, Repr

def Row.written (indent : List Char) (row : Row) : List Char :=
  if row.indented then indent ++ row.line else row.line

theorem Row.written_nil (row : Row) : row.written [] = row.line := by
  unfold Row.written
  split <;> rfl

-- The lines behind the first one. Each looks at what is left of the text from there on.
def laterRows : List (List Char) → List Row
  | [] => []
  | line :: rest => ⟨line, !isOver (line :: rest).flatten⟩ :: laterRows rest

def rowsOf (text : List Char) : List Row :=
  match cutLines text with
  | [] => []
  | head :: later => ⟨head, !opensWithBreak text⟩ :: laterRows later

theorem rowsOf_eq (cut : cutLines text = head :: later) :
    rowsOf text = ⟨head, !opensWithBreak text⟩ :: laterRows later := by
  rw [rowsOf, cut]

theorem laterRows_lines (rest : List (List Char)) : (laterRows rest).map Row.line = rest := by
  induction rest with
  | nil => rfl
  | cons line rest ih => rw [laterRows, List.map_cons, ih]

theorem rowsOf_lines (text : List Char) : (rowsOf text).map Row.line = cutLines text := by
  obtain ⟨head, later, cut⟩ := cutLines_eq_cons text
  rw [rowsOf_eq cut, cut, List.map_cons, laterRows_lines]

theorem laterRows_indented {rest : List (List Char)} {row : Row}
    (found : (laterRows rest)[i]? = some row) : row.indented = !isOver (rest.drop i).flatten := by
  induction rest generalizing i with
  | nil => cases found
  | cons line rest ih =>
    cases i with
    | zero =>
      cases found
      rfl
    | succ i => exact ih found

theorem rowsOf_indented {row : Row} (found : (rowsOf text)[i]? = some row) : row.indented = true ↔
    if i = 0 then ¬ ['\n'] <+: text ∧ ¬ ['\r', '\n'] <+: text
    else ((cutLines text).drop i).flatten ≠ [] ∧ ((cutLines text).drop i).flatten ≠ ['\n'] := by
  obtain ⟨head, later, cut⟩ := cutLines_eq_cons text
  rw [rowsOf_eq cut] at found
  cases i with
  | zero =>
    cases found
    rw [if_pos rfl, ← not_or, ← opensWithBreak_iff]
    simp
  | succ i =>
    rw [if_neg (Nat.succ_ne_zero i), cut, List.drop_succ_cons, ← not_or, ← isOver_iff,
      laterRows_indented found]
    simp

-- Within a text the indent is written behind a line feed. There it stands in front of the next line.
theorem rows_eq_lines (indent : List Char) (cut : cutLines text = head :: later) :
    rows indent text = head ++ (laterRows later).flatMap (Row.written indent) := by
  induction text generalizing head later with
  | nil =>
    cases cut
    rfl
  | cons c text ih =>
    obtain ⟨next, others, behind⟩ := cutLines_eq_cons text
    by_cases feed : c = '\n'
    · subst feed
      cases cut
      have left : (next :: others).flatten = text := by rw [← behind, flatten_cutLines]
      rw [behind, laterRows, List.flatMap_cons, left]
      cases ended : isOver text with
      | true => simp [rows, Row.written, ended, ih behind]
      | false => simp [rows_break ended, Row.written, ih behind]
    · rw [cutLines_visible feed, behind, List.modifyHead_cons] at cut
      cases cut
      rw [rows_visible feed, ih behind, List.cons_append]

theorem lines_eq_rows (indent text : List Char) :
    lines indent text = (rowsOf text).flatMap (Row.written indent) := by
  obtain ⟨head, later, cut⟩ := cutLines_eq_cons text
  rw [lines_eq, rowsOf_eq cut, List.flatMap_cons, rows_eq_lines indent cut]
  cases opens : opensWithBreak text with
  | true => simp [Row.written]
  | false => simp [Row.written]

theorem rowsOf_text (text : List Char) : (rowsOf text).flatMap Row.line = text := by
  rw [List.flatMap_def, rowsOf_lines, flatten_cutLines]

theorem apply_eq_rows (indent text : String) :
    (apply indent text).toList = (rowsOf text.toList).flatMap (Row.written indent.toList) := by
  unfold apply
  split
  · rename_i empty
    rw [String.isEmpty_iff.mp empty, String.toList_empty, funext Row.written_nil, rowsOf_text]
  · rw [String.toList_ofList, lines_eq_rows]

end Indent

-- A text is written line by line. The indent in force is put in front of the first line unless the
-- text opens with a line break, and in front of each later line unless nothing or only a line feed is
-- left of the text there. Nothing else is added, so that the lines without the indents are the text.
theorem Walk.writeText_lines (w : Walk) (text : String) :
    w.writeText text = w.writePlain (String.ofList
      ((Indent.rowsOf text.toList).flatMap (Indent.Row.written w.indent.toList))) ∧
    (w.indent = "" → w.writeText text = w.writePlain text) ∧
    (Indent.rowsOf text.toList).map Indent.Row.line = cutLines text.toList ∧
    (∃ (bodies : List (List Char)) (last : List Char),
      cutLines text.toList = bodies.map (· ++ ['\n']) ++ [last] ∧
        (∀ body ∈ bodies, '\n' ∉ body) ∧ '\n' ∉ last) ∧
    (∀ i row, (Indent.rowsOf text.toList)[i]? = some row → (row.indented = true ↔
      if i = 0 then ¬ ['\n'] <+: text.toList ∧ ¬ ['\r', '\n'] <+: text.toList
      else ((cutLines text.toList).drop i).flatten ≠ [] ∧
        ((cutLines text.toList).drop i).flatten ≠ ['\n'])) ∧
    (Indent.rowsOf text.toList).flatMap Indent.Row.line = text.toList := by
  have written : w.writeText text = w.writePlain (String.ofList
      ((Indent.rowsOf text.toList).flatMap (Indent.Row.written w.indent.toList))) := by
    rw [writeText, writePlain, ← Indent.apply_eq_rows, String.ofList_toList]
  refine ⟨written, ?_, Indent.rowsOf_lines _, cutLines_ends _, ?_, Indent.rowsOf_text _⟩
  · intro empty
    rw [written, empty, String.toList_empty, funext Indent.Row.written_nil, Indent.rowsOf_text,
      String.ofList_toList]
  · intro i row found
    exact Indent.rowsOf_indented found

namespace Margin

def poem : String := "é\r\n\nb\n\n"

def walk : Walk := { Walk.start .null [] with indent := "> ", out := "x" }

end Margin

open Margin in
theorem Walk.writeText_lines_poem :
    (walk.writeText poem).out = "x> é\r\n> \n> b\n\n" ∧
    (Walk.start .null []).writeText poem = (Walk.start .null []).writePlain poem ∧
    (Indent.rowsOf poem.toList)[1]? = some ⟨['\n'], true⟩ ∧
    ((cutLines poem.toList).drop 1).flatten ≠ ['\n'] ∧
    (Indent.rowsOf poem.toList)[3]? = some ⟨['\n'], false⟩ ∧
    ((cutLines poem.toList).drop 3).flatten = ['\n'] := by
  obtain ⟨written, -, -, -, marks, -⟩ := walk.writeText_lines poem
  obtain ⟨-, plain, -⟩ := (Walk.start .null []).writeText_lines poem
  have inside : (Indent.rowsOf poem.toList)[1]? = some ⟨['\n'], true⟩ := rfl
  have atEnd : (Indent.rowsOf poem.toList)[3]? = some ⟨['\n'], false⟩ := rfl
  have goesOn := (marks 1 _ inside).mp rfl
  refine ⟨?_, plain rfl, inside, goesOn.2, atEnd, rfl⟩
  rw [written]
  rfl

end Mustache
