import Mathlib.Data.List.Induction
import Mustache.Proofs.Line
import Mustache.Text.Bytes
import Mustache.Text.Search

namespace Mustache.Text

def crlf (text : List Char) : List Char :=
  text.flatMap fun c => if c = '\n' then ['\r', '\n'] else [c]

def crlfText (text : String) : String := String.ofList (crlf text.toList)

@[simp] theorem crlf_nil : crlf [] = [] := rfl

@[simp] theorem crlf_break (text : List Char) : crlf ('\n' :: text) = '\r' :: '\n' :: crlf text := rfl

theorem crlf_cons (other : c ≠ '\n') (text : List Char) : crlf (c :: text) = c :: crlf text := by
  simp [crlf, other]

@[simp] theorem crlf_append (a b : List Char) : crlf (a ++ b) = crlf a ++ crlf b := List.flatMap_append

@[simp] theorem toList_crlfText (text : String) : (crlfText text).toList = crlf text.toList :=
  String.toList_ofList

@[simp] theorem crlfText_ofList (text : List Char) :
    crlfText (String.ofList text) = String.ofList (crlf text) := by
  rw [crlfText, String.toList_ofList]

theorem crlf_of_notMem (absent : '\n' ∉ text) : crlf text = text := by
  induction text with
  | nil => rfl
  | cons c text ih =>
    simp only [List.mem_cons, not_or] at absent
    rw [crlf_cons (Ne.symm absent.1), ih absent.2]

theorem crlfText_of_notMem (absent : '\n' ∉ text.toList) : crlfText text = text := by
  rw [crlfText, crlf_of_notMem absent, String.ofList_toList]

theorem crlf_of_blank (blank : ∀ c ∈ text, isBlank c = true) : crlf text = text :=
  crlf_of_notMem fun member => absurd (blank '\n' member) (by decide)

theorem mem_crlf : '\n' ∈ crlf text ↔ '\n' ∈ text := by
  induction text with
  | nil => simp
  | cons c text ih =>
    by_cases feed : c = '\n'
    · simp [feed]
    · simp [crlf_cons feed, ih, Ne.symm feed]

theorem crlf_eq_nil : crlf text = [] ↔ text = [] := by
  cases text with
  | nil => simp
  | cons c text =>
    by_cases feed : c = '\n'
    · simp [feed]
    · simp [crlf_cons feed]

theorem isEmpty_crlf (text : List Char) : (crlf text).isEmpty = text.isEmpty := by
  rw [Bool.eq_iff_iff, List.isEmpty_iff, List.isEmpty_iff, crlf_eq_nil]

theorem head_crlf (text : List Char) : (crlf text).head? ≠ some '\n' := by
  cases text with
  | nil => simp
  | cons c text =>
    by_cases feed : c = '\n'
    · simp [feed]
    · simp [crlf_cons feed, feed]

-- An LF that was converted cannot be taken for one behind a CR of the text.
theorem crlf_inj : crlf a = crlf b ↔ a = b := by
  refine ⟨fun same => ?_, congrArg crlf⟩
  induction a generalizing b with
  | nil => exact (crlf_eq_nil.mp same.symm).symm
  | cons c a ih =>
    cases b with
    | nil => exact crlf_eq_nil.mp same
    | cons d b =>
      by_cases left : c = '\n' <;> by_cases right : d = '\n'
      · subst left right
        rw [ih (by simpa using same)]
      · subst left
        rw [crlf_break, crlf_cons right, List.cons.injEq] at same
        exact absurd (by rw [← same.2]; rfl) (head_crlf b)
      · subst right
        rw [crlf_break, crlf_cons left, List.cons.injEq] at same
        exact absurd (by rw [same.2]; rfl) (head_crlf a)
      · rw [crlf_cons left, crlf_cons right, List.cons.injEq] at same
        rw [same.1, ih same.2]

theorem crlfText_inj : crlfText a = crlfText b ↔ a = b := by
  rw [crlfText, crlfText, String.ofList_inj, crlf_inj, String.toList_inj]

theorem size_eq_zero : size text = 0 ↔ text = [] := by
  refine ⟨fun none => List.eq_nil_of_length_eq_zero ?_, by rintro rfl; rfl⟩
  have bound := length_le_size text
  omega

theorem dropWhile_crlf {p : Char → Bool} (feeds : p '\n' = p '\r') (text : List Char) :
    (crlf text).dropWhile p = crlf (text.dropWhile p) := by
  induction text with
  | nil => rfl
  | cons c text ih =>
    by_cases feed : c = '\n'
    · subst feed
      cases drops : p '\n' with
      | true => simp [drops, ← feeds, ih]
      | false => simp [drops, ← feeds]
    · rw [crlf_cons feed]
      cases drops : p c with
      | true => simp [drops, ih]
      | false => simp [drops, crlf_cons feed]

theorem takeWhile_crlf {p : Char → Bool} (stops : p '\n' = false) (returns : p '\r' = false)
    (text : List Char) : (crlf text).takeWhile p = text.takeWhile p := by
  induction text with
  | nil => rfl
  | cons c text ih =>
    by_cases feed : c = '\n'
    · simp [feed, stops, returns]
    · rw [crlf_cons feed]
      cases takes : p c with
      | true => simp [takes, ih]
      | false => simp [takes]

theorem trimStart_crlf (text : List Char) : trimStart (crlf text) = crlf (trimStart text) :=
  dropWhile_crlf rfl text

theorem trimEnd_crlf (text : List Char) :
    (trimStart (crlf text).reverse).reverse = crlf (trimStart text.reverse).reverse := by
  induction text using List.reverseRecOn with
  | nil => rfl
  | append_singleton text c ih =>
    by_cases feed : c = '\n'
    · subst feed
      have inner : trimStart ('\n' :: '\r' :: (crlf text).reverse) = trimStart (crlf text).reverse := by
        simp [trimStart, show isSpace '\n' = true by decide, show isSpace '\r' = true by decide]
      have outer : trimStart ('\n' :: text.reverse) = trimStart text.reverse := by
        simp [trimStart, show isSpace '\n' = true by decide]
      simp only [crlf_append, crlf_break, crlf_nil, List.reverse_append, List.reverse_cons,
        List.reverse_nil, List.nil_append, List.cons_append, inner, outer]
      exact ih
    · have single : crlf [c] = [c] := crlf_cons feed []
      rw [crlf_append, single, List.reverse_append, List.reverse_append, List.reverse_singleton]
      cases space : isSpace c with
      | true =>
        simp only [trimStart, List.singleton_append, List.dropWhile_cons, space, if_true] at ih ⊢
        exact ih
      | false =>
        simp only [trimStart, List.singleton_append, List.dropWhile_cons, space, Bool.false_eq_true,
          if_false, List.reverse_cons, List.reverse_reverse, crlf_append, single]

theorem trim_crlf (text : List Char) : trim (crlf text) = crlf (trim text) := by
  rw [trim, trimStart_crlf, trimEnd_crlf, trim]

theorem lineBreak_crlf (bare : '\r' ∉ text) :
    lineBreak? (crlf text) = (lineBreak? text).map fun found => (crlf found.1, crlf found.2) := by
  cases text with
  | nil => rfl
  | cons c text =>
    by_cases feed : c = '\n'
    · subst feed; rfl
    · have other : c ≠ '\r' := fun same => bare (by simp [same])
      rw [crlf_cons feed]
      have missed (rest : List Char) : lineBreak? (c :: rest) = none := by
        unfold lineBreak?
        split
        · rename_i same; cases same; exact absurd rfl feed
        · rename_i same; cases same; exact absurd rfl other
        · rfl
      rw [missed, missed]
      rfl

theorem lineEnd_crlf (bare : '\r' ∉ text) :
    lineEnd? (crlf text) = (lineEnd? text).map fun found => (crlf found.1, crlf found.2) := by
  rcases exists_visible text with blank | ⟨blanks, c, rest, rfl, blank, visible⟩
  · rw [crlf_of_blank blank, lineEnd_of_blanks blank, Option.map_some, crlf_of_blank blank]
    rfl
  · have bare' : '\r' ∉ c :: rest := fun member => bare (List.mem_append_right _ member)
    have converted := lineBreak_crlf bare'
    obtain ⟨d, more, shape, visible'⟩ : ∃ d more, crlf (c :: rest) = d :: more ∧ isBlank d = false := by
      by_cases feed : c = '\n'
      · exact ⟨'\r', _, by rw [feed]; rfl, rfl⟩
      · exact ⟨c, _, crlf_cons feed rest, visible⟩
    rw [crlf_append, crlf_of_blank blank, shape, lineEnd_of_visible blank visible', ← shape, converted,
      lineEnd_of_visible blank visible, Option.map_map, Option.map_map]
    refine congrArg (Option.map · _) (funext fun found => ?_)
    simp [crlf_of_blank blank]

theorem cutLineEnd_crlf (bare : '\r' ∉ text) (drops : Bool) : cutLineEnd drops (crlf text) =
    (crlf (cutLineEnd drops text).1, crlf (cutLineEnd drops text).2) := by
  cases drops with
  | false => rfl
  | true =>
    simp only [cutLineEnd, if_true, lineEnd_crlf bare]
    cases lineEnd? text <;> rfl

def Unbroken (word : List Char) : Prop := ∀ c ∈ word, c ≠ '\n' ∧ c ≠ '\r'

instance (word : List Char) : Decidable (Unbroken word) := List.decidableBAll _ word

theorem strip_crlf (unbroken : Unbroken word) (text : List Char) :
    strip? word (crlf text) = (strip? word text).map crlf := by
  induction word generalizing text with
  | nil => rfl
  | cons w word ih =>
    obtain ⟨feeds, returns⟩ := unbroken w List.mem_cons_self
    cases text with
    | nil => rfl
    | cons c text =>
      by_cases feed : c = '\n'
      · simp [feed, strip?, feeds, returns]
      · rw [crlf_cons feed]
        have rest := ih (fun d member => unbroken d (List.mem_cons_of_mem _ member)) text
        by_cases same : w = c
        · simp [strip?, same, rest]
        · simp [strip?, same]

-- A search goes through a converted text as through the text itself, if it finds nothing between a
-- CR and its LF that it did not find at the CR.
theorem firstFrom_crlf {test : List Char → Option α} {f : α → α} (bare : '\r' ∉ text)
    (agrees : ∀ text, '\r' ∉ text → test (crlf text) = (test text).map f)
    (between : ∀ text, '\r' ∉ text → test ('\n' :: text) = none → test ('\n' :: crlf text) = none)
    (passed : List Char) : firstFrom test (crlf passed.reverse).reverse (crlf text) =
      (firstFrom test passed text).map fun found => (crlf found.1, f found.2) := by
  induction text generalizing passed with
  | nil =>
    have here := agrees [] (by simp)
    cases hit : test [] with
    | none => simp [firstFrom, hit]
    | some found =>
      rw [crlf_nil, hit, Option.map_some, Option.some.injEq] at here
      simp [firstFrom, hit, ← here]
  | cons c text ih =>
    have rest := ih (fun member => bare (List.mem_cons_of_mem _ member)) (c :: passed)
    have here := agrees (c :: text) bare
    by_cases feed : c = '\n'
    · subst feed
      rw [crlf_break] at here ⊢
      cases hit : test ('\n' :: text) with
      | some found => simp [firstFrom, here, hit]
      | none =>
        have missed := between text (fun member => bare (List.mem_cons_of_mem _ member)) hit
        simp only [firstFrom, here, hit, Option.map_none, missed]
        simpa using rest
    · rw [crlf_cons feed] at here ⊢
      have single : crlf [c] = [c] := crlf_cons feed []
      cases hit : test (c :: text) with
      | some found => simp [firstFrom, here, hit]
      | none =>
        simp only [firstFrom, here, hit, Option.map_none]
        simpa [single] using rest

theorem first_crlf {test : List Char → Option α} {f : α → α} (bare : '\r' ∉ text)
    (agrees : ∀ text, '\r' ∉ text → test (crlf text) = (test text).map f)
    (between : ∀ text, '\r' ∉ text → test ('\n' :: text) = none → test ('\n' :: crlf text) = none) :
    first test (crlf text) = (first test text).map fun found => (crlf found.1, f found.2) :=
  firstFrom_crlf bare agrees between []

end Mustache.Text
