namespace Mustache.Text

def size (text : List Char) : Nat := text.foldl (fun n c => n + c.utf8Size) 0

theorem foldl_size (n : Nat) (text : List Char) :
    text.foldl (fun n c => n + c.utf8Size) n = n + size text := by
  unfold size
  induction text generalizing n with
  | nil => simp
  | cons c text ih =>
    simp only [List.foldl_cons, Nat.zero_add]
    rw [ih, ih c.utf8Size, Nat.add_assoc]

@[simp] theorem size_nil : size [] = 0 := rfl

@[simp] theorem size_cons : size (c :: text) = c.utf8Size + size text := by
  rw [size, List.foldl_cons, Nat.zero_add, foldl_size]

@[simp] theorem size_append (a b : List Char) : size (a ++ b) = size a + size b := by
  induction a with
  | nil => simp
  | cons c a ih => simp [ih, Nat.add_assoc]

theorem length_le_size (text : List Char) : text.length ≤ size text := by
  induction text with
  | nil => simp
  | cons c text ih =>
    have positive := c.utf8Size_pos
    simp only [List.length_cons, size_cons]
    omega

-- The first `n` bytes and what follows them. There is no answer where the text is shorter or where
-- the cut falls inside a character.
def cutFrom (passed : List Char) : Nat → List Char → Option (List Char × List Char)
  | 0, text => some (passed.reverse, text)
  | _ + 1, [] => none
  | n + 1, c :: text =>
    if c.utf8Size ≤ n + 1 then cutFrom (c :: passed) (n + 1 - c.utf8Size) text else none
termination_by _ text => text.length

def cut? (n : Nat) (text : List Char) : Option (List Char × List Char) := cutFrom [] n text

def skip? : Nat → List Char → Option (List Char)
  | 0, text => some text
  | _ + 1, [] => none
  | n + 1, c :: text => if c.utf8Size ≤ n + 1 then skip? (n + 1 - c.utf8Size) text else none
termination_by _ text => text.length

def slice? (text : List Char) (start stop : Nat) : Option (List Char) :=
  if start ≤ stop then
    match skip? start text with
    | none => none
    | some rest =>
      match cut? (stop - start) rest with
      | none => none
      | some (middle, _) => some middle
  else none

theorem cutFrom_eq_some_iff : cutFrom passed n text = some (lead, rest) ↔
    ∃ more, lead = passed.reverse ++ more ∧ text = more ++ rest ∧ size more = n := by
  induction text generalizing n passed with
  | nil =>
    cases n with
    | zero =>
      simp only [cutFrom, Option.some.injEq, Prod.mk.injEq]
      constructor
      · rintro ⟨rfl, rfl⟩; exact ⟨[], by simp⟩
      · rintro ⟨more, rfl, parts, same⟩
        obtain ⟨rfl, rfl⟩ := List.append_eq_nil_iff.mp parts.symm
        simp
    | succ n =>
      simp only [cutFrom, reduceCtorEq, false_iff, not_exists, not_and]
      intro more _ parts
      obtain ⟨rfl, rfl⟩ := List.append_eq_nil_iff.mp parts.symm
      simp
  | cons c text ih =>
    have positive := c.utf8Size_pos
    cases n with
    | zero =>
      simp only [cutFrom, Option.some.injEq, Prod.mk.injEq]
      constructor
      · rintro ⟨rfl, rfl⟩; exact ⟨[], by simp⟩
      · rintro ⟨more, rfl, parts, same⟩
        cases more with
        | nil => simpa using parts
        | cons d more =>
          have positive := d.utf8Size_pos
          simp only [size_cons] at same
          omega
    | succ n =>
      unfold cutFrom
      by_cases fits : c.utf8Size ≤ n + 1
      · rw [if_pos fits, ih]
        constructor
        · rintro ⟨more, rfl, rfl, same⟩
          exact ⟨c :: more, by simp, by simp, by simp only [size_cons]; omega⟩
        · rintro ⟨more, rfl, parts, same⟩
          cases more with
          | nil => simp at same
          | cons d more =>
            simp only [List.cons_append, List.cons.injEq] at parts
            obtain ⟨rfl, rfl⟩ := parts
            exact ⟨more, by simp, rfl, by simp only [size_cons] at same; omega⟩
      · rw [if_neg fits]
        simp only [reduceCtorEq, false_iff, not_exists, not_and]
        intro more _ parts same
        cases more with
        | nil => simp at same
        | cons d more =>
          simp only [List.cons_append, List.cons.injEq] at parts
          obtain ⟨rfl, rfl⟩ := parts
          simp only [size_cons] at same
          omega

theorem cut_eq_some_iff : cut? n text = some (lead, rest) ↔
    text = lead ++ rest ∧ size lead = n := by
  simp [cut?, cutFrom_eq_some_iff]

theorem cutFrom_snd (passed : List Char) (n : Nat) (text : List Char) :
    (cutFrom passed n text).map Prod.snd = skip? n text := by
  induction text generalizing n passed with
  | nil => cases n <;> simp [cutFrom, skip?]
  | cons c text ih =>
    cases n with
    | zero => simp [cutFrom, skip?]
    | succ n =>
      unfold cutFrom skip?
      split
      · exact ih _ _
      · rfl

theorem skip_eq_some_iff : skip? n text = some rest ↔ ∃ lead, text = lead ++ rest ∧ size lead = n := by
  rw [← cutFrom_snd [] n text, Option.map_eq_some_iff]
  constructor
  · rintro ⟨⟨lead, after⟩, found, rfl⟩
    exact ⟨lead, cut_eq_some_iff.mp found⟩
  · rintro ⟨lead, parts⟩
    exact ⟨(lead, rest), cut_eq_some_iff.mpr parts, rfl⟩

theorem slice_eq_some_iff : slice? text start stop = some middle ↔
    ∃ before after, text = before ++ middle ++ after ∧ size before = start ∧
      size before + size middle = stop := by
  unfold slice?
  constructor
  · intro found
    split at found
    · split at found
      · cases found
      · rename_i rest first
        split at found
        · cases found
        · rename_i inside after second
          cases Option.some.inj found
          obtain ⟨before, rfl, here⟩ := skip_eq_some_iff.mp first
          obtain ⟨rfl, there⟩ := cut_eq_some_iff.mp second
          exact ⟨before, after, by simp, here, by omega⟩
    · cases found
  · rintro ⟨before, after, rfl, rfl, rfl⟩
    have first : skip? (size before) (before ++ middle ++ after) = some (middle ++ after) :=
      skip_eq_some_iff.mpr ⟨before, by simp, rfl⟩
    have second : cut? (size before + size middle - size before) (middle ++ after) =
        some (middle, after) := cut_eq_some_iff.mpr ⟨rfl, by omega⟩
    rw [if_pos (Nat.le_add_right _ _)]
    simp only [first, second]

end Mustache.Text
