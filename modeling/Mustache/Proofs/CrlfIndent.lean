import Mustache.Proofs.Crlf
import Mustache.Render.Indent

namespace Mustache
open Text

-- What was written for a template, and what was written for the converted template in its place.
-- The latter is the converted text of the former exactly if something holds, and never shorter.
structure Grows (part other : List Char) (exact : Prop) : Prop where
  bound : (crlf part).length ≤ other.length
  same_iff : other = crlf part ↔ exact

namespace Grows

theorem self (part : List Char) : Grows part (crlf part) True := ⟨Nat.le_refl _, by simp⟩

theorem unbroken (absent : '\n' ∉ part) : Grows part part True := by
  simpa only [crlf_of_notMem absent] using Grows.self part

theorem congr (grows : Grows part other exact) (iff : exact ↔ exact') : Grows part other exact' :=
  ⟨grows.bound, grows.same_iff.trans iff⟩

theorem append (first : Grows a a' one) (second : Grows b b' two) :
    Grows (a ++ b) (a' ++ b') (one ∧ two) := by
  obtain ⟨room, here⟩ := first
  obtain ⟨room', there⟩ := second
  refine ⟨by simp only [crlf_append, List.length_append]; omega, ?_⟩
  rw [crlf_append, ← here, ← there]
  constructor
  · intro same
    have lengths := congrArg List.length same
    simp only [List.length_append] at lengths
    exact List.append_inj same (by omega)
  · rintro ⟨rfl, rfl⟩
    rfl

end Grows

namespace Indent

def rows (indent : List Char) : List Char → List Char
  | [] => []
  | c :: text => if c = '\n' && !isOver text then c :: (indent ++ rows indent text)
    else c :: rows indent text

theorem linesFrom_eq (indent done text : List Char) :
    linesFrom indent done text = done.reverse ++ rows indent text := by
  induction text generalizing done with
  | nil => simp [linesFrom, rows]
  | cons c text ih =>
    unfold linesFrom rows
    split <;> simp [ih]

theorem lines_eq (indent text : List Char) :
    lines indent text = (if opensWithBreak text then [] else indent) ++ rows indent text := by
  rw [lines, linesFrom_eq]
  split <;> simp

theorem opensWithBreak_crlf (bare : '\r' ∉ text) : opensWithBreak (crlf text) = opensWithBreak text := by
  cases text with
  | nil => rfl
  | cons c text =>
    by_cases feed : c = '\n'
    · subst feed
      rfl
    · have other : c ≠ '\r' := fun same => bare (by simp [same])
      rw [crlf_cons feed]
      have none (rest : List Char) : opensWithBreak (c :: rest) = false := by
        unfold opensWithBreak
        split
        · rename_i same; cases same; exact absurd rfl feed
        · rename_i same; cases same; exact absurd rfl other
        · rfl
      rw [none, none]

theorem rows_visible (other : c ≠ '\n') (indent text : List Char) :
    rows indent (c :: text) = c :: rows indent text := by
  simp [rows, other]

theorem rows_break (goesOn : isOver text = false) (indent : List Char) :
    rows indent ('\n' :: text) = '\n' :: (indent ++ rows indent text) := by
  simp [rows, goesOn]

theorem isOver_of_ne (full : text ≠ []) (other : text ≠ ['\n']) : isOver text = false := by
  unfold isOver
  split
  · exact absurd rfl full
  · exact absurd rfl other
  · rfl

-- A converted text gets the same indents, unless it ends with two line breaks: behind the first of
-- these it gets one more.
theorem rows_crlf (indent : List Char) (absent : '\n' ∉ indent) (text : List Char) :
    Grows (rows indent text) (rows indent (crlf text)) (indent = [] ∨ ¬ ['\n', '\n'] <:+ text) := by
  induction text with
  | nil => exact (Grows.self []).congr (by simp)
  | cons c text ih =>
    by_cases feed : c = '\n'
    · subst feed
      by_cases last : text = []
      · subst last
        exact (Grows.self ['\n']).congr (by simp [List.suffix_cons_iff])
      · by_cases alone : text = ['\n']
        · subst alone
          have plain : rows indent ['\n', '\n'] = ['\n', '\n'] := rfl
          have more : rows indent (crlf ['\n', '\n']) = '\r' :: '\n' :: (indent ++ ['\r', '\n']) := rfl
          rw [plain, more]
          refine ⟨by simp [crlf], ?_⟩
          simp [crlf]
        · have goesOn : isOver (crlf text) = false := by
            refine isOver_of_ne (fun none => last (crlf_eq_nil.mp none)) fun single => ?_
            exact head_crlf text (by rw [single]; rfl)
          have apart : ['\n', '\n'] ≠ '\n' :: text := by
            rintro ⟨⟩
            exact alone rfl
          have returned : rows indent ('\r' :: '\n' :: crlf text) =
            '\r' :: rows indent ('\n' :: crlf text) := rows_visible (by decide) indent _
          rw [crlf_break, returned, rows_break goesOn, rows_break (isOver_of_ne last alone)]
          have pieces := (Grows.self ['\n']).append ((Grows.unbroken absent).append ih)
          exact pieces.congr (by simp [List.suffix_cons_iff, apart])
    · have apart : ['\n', '\n'] ≠ c :: text := by
        rintro ⟨⟩
        exact feed rfl
      rw [crlf_cons feed, rows_visible feed, rows_visible feed]
      have single : Grows [c] [c] True := .unbroken (by simpa using Ne.symm feed)
      exact (single.append ih).congr (by simp [List.suffix_cons_iff, apart])

theorem apply_crlf (indent text : String) (absent : '\n' ∉ indent.toList) (bare : '\r' ∉ text.toList) :
    Grows (apply indent text).toList (apply indent (crlfText text)).toList
      ¬ (indent ≠ "" ∧ ['\n', '\n'] <:+ text.toList) := by
  unfold apply
  cases empty : indent.isEmpty with
  | true =>
    obtain rfl := String.isEmpty_iff.mp empty
    simpa using Grows.self text.toList
  | false =>
    have full : indent ≠ "" := fun none => by simp [none] at empty
    simp only [Bool.false_eq_true, if_false, String.toList_ofList, toList_crlfText, lines_eq,
      opensWithBreak_crlf bare]
    have begins : Grows (if opensWithBreak text.toList then [] else indent.toList)
        (if opensWithBreak text.toList then [] else indent.toList) True := by
      split
      · exact .self []
      · exact .unbroken absent
    exact (begins.append (rows_crlf indent.toList absent text.toList)).congr (by simp [full])

end Indent
end Mustache
