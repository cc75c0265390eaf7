namespace Mustache.Text

def strip? : List Char → List Char → Option (List Char)
  | [], text => some text
  | _ :: _, [] => none
  | w :: word, c :: text => if w = c then strip? word text else none

theorem strip_eq_some_iff : strip? word text = some rest ↔ text = word ++ rest := by
  induction word generalizing text with
  | nil => simp [strip?]
  | cons w word ih =>
    cases text with
    | nil => simp [strip?]
    | cons c text =>
      by_cases same : w = c
      · subst same; simp [strip?, ih]
      · simp [strip?, same, Ne.symm same]

theorem strip_append (word rest : List Char) : strip? word (word ++ rest) = some rest :=
  strip_eq_some_iff.mpr rfl

-- The first position, from left to right and the end included, at which `test` answers. `passed`
-- holds the characters already left behind, latest first.
def firstFrom (test : List Char → Option α) (passed : List Char) :
    List Char → Option (List Char × α)
  | [] =>
    match test [] with
    | none => none
    | some found => some (passed.reverse, found)
  | c :: text =>
    match test (c :: text) with
    | some found => some (passed.reverse, found)
    | none => firstFrom test (c :: passed) text

def first (test : List Char → Option α) (text : List Char) : Option (List Char × α) :=
  firstFrom test [] text

structure FirstAt (test : List Char → Option α) (text lead : List Char) (found : α) : Prop where
  hit : ∃ rest, text = lead ++ rest ∧ test rest = some found
  earlier : ∀ u v, text = u ++ v → u.length < lead.length → test v = none

theorem firstFrom_eq_some (found : firstFrom test passed text = some (lead, answer)) :
    ∃ more, lead = passed.reverse ++ more ∧ FirstAt test text more answer := by
  induction text generalizing passed with
  | nil =>
    simp only [firstFrom] at found
    split at found
    · cases found
    · rename_i value at_end
      simp only [Option.some.injEq, Prod.mk.injEq] at found
      obtain ⟨rfl, rfl⟩ := found
      exact ⟨[], by simp, ⟨[], rfl, at_end⟩, by simp⟩
  | cons c text ih =>
    simp only [firstFrom] at found
    split at found
    · rename_i value here
      simp only [Option.some.injEq, Prod.mk.injEq] at found
      obtain ⟨rfl, rfl⟩ := found
      exact ⟨[], by simp, ⟨c :: text, rfl, here⟩, by simp⟩
    · rename_i missed
      obtain ⟨more, rfl, ⟨rest, rfl, hit⟩, earlier⟩ := ih found
      refine ⟨c :: more, by simp, ⟨rest, rfl, hit⟩, ?_⟩
      intro u v parts shorter
      cases u with
      | nil => cases parts; exact missed
      | cons d u =>
        simp only [List.cons_append, List.cons.injEq] at parts
        exact earlier u v parts.2 (by simpa using shorter)

theorem firstFrom_eq_none : firstFrom test passed text = none ↔
    ∀ u v, text = u ++ v → test v = none := by
  induction text generalizing passed with
  | nil =>
    constructor
    · intro missed u v parts
      obtain ⟨-, rfl⟩ := List.append_eq_nil_iff.mp parts.symm
      cases got : test [] with
      | none => rfl
      | some value => simp [firstFrom, got] at missed
    · intro missed
      simp [firstFrom, missed [] [] rfl]
  | cons c text ih =>
    constructor
    · intro missed u v parts
      cases got : test (c :: text) with
      | some value => simp [firstFrom, got] at missed
      | none =>
        simp only [firstFrom, got] at missed
        cases u with
        | nil => cases parts; exact got
        | cons d u =>
          simp only [List.cons_append, List.cons.injEq] at parts
          exact ih.mp missed u v parts.2
    · intro missed
      simp only [firstFrom, missed [] (c :: text) rfl]
      exact ih.mpr (fun u v parts => missed (c :: u) v (by simp [parts]))

theorem first_eq_some (found : first test text = some (lead, answer)) :
    FirstAt test text lead answer := by
  obtain ⟨more, rfl, answered⟩ := firstFrom_eq_some found
  simpa using answered

theorem first_eq_none : first test text = none ↔ ∀ u v, text = u ++ v → test v = none :=
  firstFrom_eq_none

theorem head_dropWhile (p : Char → Bool) (text : List Char) :
    ∀ c ∈ (text.dropWhile p).head?, p c = false := by
  intro c first
  have fails := List.head?_dropWhile_not p text
  rw [show (text.dropWhile p).head? = some c from first] at fails
  simpa using fails

end Mustache.Text
