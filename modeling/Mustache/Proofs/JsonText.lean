import Mathlib.Data.List.Forall2
import Mustache.Json.Reading
import Mustache.Json.Writing
import Mustache.Proofs.NumeralText

namespace Mustache.Json
open Text

section Strings
variable {c d : Char}

theorem string_letter (found : letter? c = some d) (done : List Char) (sound : Bool) (text : List Char) :
    string? done sound ('\\' :: c :: text) = string? (d :: done) sound text := by
  have notUnit : c ≠ 'u' := by
    intro same
    rw [same] at found
    cases found
  rw [string?]
  · rw [found]
  · intro _ _ _ _ _ same
    exact absurd same notUnit

theorem hexValue_hexDigit (small : n < 16) : hexValue? (hexDigit n) = some n := by
  have all : ∀ n < 16, hexValue? (hexDigit n) = some n := by decide
  exact all n small

theorem string_unit (low : c.toNat < 0x20) (done : List Char) (sound : Bool) (text : List Char) :
    string? done sound ('\\' :: 'u' :: '0' :: '0' :: hexDigit (c.toNat / 16) :: hexDigit (c.toNat % 16) ::
      text) = string? (c :: done) sound text := by
  have unit : unit? '0' '0' (hexDigit (c.toNat / 16)) (hexDigit (c.toNat % 16)) = some c.toNat := by
    have zero : hexValue? '0' = some 0 := rfl
    rw [unit?, zero, hexValue_hexDigit (by omega), hexValue_hexDigit (by omega)]
    simp only [Option.some.injEq]
    omega
  have plain : isLeading c.toNat = false ∧ isTrailing c.toNat = false := by
    simp only [isLeading, isTrailing, Bool.and_eq_false_iff, decide_eq_false_iff_not]
    omega
  rw [string?, unit]
  simp only [plain.1, plain.2, Bool.false_eq_true, if_false, Char.ofNat_toNat]

theorem string_plain (quote : c ≠ '"') (slash : c ≠ '\\') (high : ¬ c.toNat < 0x20) (done : List Char)
    (sound : Bool) (text : List Char) :
    string? done sound (c :: text) = string? (c :: done) sound text := by
  rw [string?]
  · rw [if_neg]
    simp [slash, high]
  · exact quote
  · intro _ _ _ _ _ same
    exact absurd same slash
  · intro _ _ same
    exact absurd same slash

theorem string_escaped (c : Char) (done : List Char) (sound : Bool) (text : List Char) :
    string? done sound (escaped c ++ text) = string? (c :: done) sound text := by
  unfold escaped
  split
  case h_8 quote slash _ _ _ _ _ =>
    split
    · rename_i low
      exact string_unit low done sound text
    · rename_i high
      exact string_plain quote slash high done sound text
  all_goals exact string_letter rfl done sound text

theorem string_body (text done rest : List Char) :
    string? done true (text.flatMap escaped ++ '"' :: rest) =
      some (some (String.ofList (done.reverse ++ text)), rest) := by
  induction text generalizing done with
  | nil =>
    rw [List.flatMap_nil, List.nil_append, string?, List.append_nil]
    rfl
  | cons c text ih =>
    rw [List.flatMap_cons, List.append_assoc, string_escaped, ih, List.reverse_cons, List.append_assoc]
    rfl

theorem string_quoted (text : String) (rest : List Char) :
    string? [] true (text.toList.flatMap escaped ++ '"' :: rest) = some (some text, rest) := by
  rw [string_body, List.reverse_nil, List.nil_append, String.ofList_toList]

end Strings

def row (texts : List (List Char)) : List Char := [','].intercalate texts

theorem row_single (text : List Char) : row [text] = text := List.intercalate_singleton

theorem row_cons (text next : List Char) (texts : List (List Char)) :
    row (text :: next :: texts) = text ++ ',' :: row (next :: texts) := by
  rw [row, List.intercalate_cons_cons, List.append_assoc, List.singleton_append, row]

theorem row_front (c : Char) (text : List Char) (texts : List (List Char)) :
    ∃ more, row ((c :: text) :: texts) = c :: more := ⟨_, List.intercalate_cons_cons_left⟩

def entryText (entry : String × Json) : List Char :=
  (quoted entry.1).toList ++ ':' :: entry.2.write.toList

theorem toList_quoted (text : String) :
    (quoted text).toList = '"' :: (text.toList.flatMap escaped ++ ['"']) := String.toList_ofList

theorem entryText_eq (key : String) (value : Json) : entryText (key, value) =
    '"' :: (key.toList.flatMap escaped ++ '"' :: ':' :: value.write.toList) := by
  rw [entryText, toList_quoted, List.cons_append, List.append_assoc, List.singleton_append]

theorem writeItems_eq_map (items : List Json) : writeItems items = items.map write := by
  induction items with
  | nil => rfl
  | cons item rest ih => rw [writeItems, List.map_cons, ih]

theorem writeEntries_eq_map (entries : List (String × Json)) :
    writeEntries entries = entries.map fun entry => quoted entry.1 ++ ":" ++ entry.2.write := by
  induction entries with
  | nil => rfl
  | cons entry rest ih => rw [writeEntries, List.map_cons, ih]

theorem toList_array (items : List Json) : (write (.array items)).toList =
    '[' :: (row (items.map fun item => item.write.toList) ++ [']']) := by
  simp [write, writeItems_eq_map, String.toList_intercalate, Function.comp_def, row]

theorem toList_object (entries : List (String × Json)) : (write (.object entries)).toList =
    '\x7b' :: (row (entries.map entryText) ++ ['\x7d']) := by
  have shown : entryText = fun entry => (quoted entry.1).toList ++ ':' :: entry.2.write.toList := rfl
  simp [write, writeEntries_eq_map, String.toList_intercalate, Function.comp_def, row, shown]

inductive Readable : Json → Prop where
  | null : Readable .null
  | bool : Readable (.bool value)
  | number (faithful : value.Faithful) : Readable (.number value)
  | string : Readable (.string value)
  | array (parts : ∀ item ∈ items, Readable item) : Readable (.array items)
  | object (parts : ∀ entry ∈ entries, Readable entry.2) : Readable (.object entries)

def Begins (text : List Char) : Prop := ∃ c rest, text = c :: rest ∧ isGap c = false ∧ c ≠ ']'

theorem skipGap_cons (solid : isGap c = false) (text : List Char) : skipGap (c :: text) = c :: text := by
  rw [skipGap, List.dropWhile_cons_of_neg (by simp [solid])]

theorem Begins.skipGap_eq (begins : Begins text) (rest : List Char) :
    skipGap (text ++ rest) = text ++ rest := by
  obtain ⟨c, tail, shown, solid, -⟩ := begins
  rw [shown, List.cons_append, skipGap_cons solid]

theorem begins_numeral (found : Numeral.read? text = some (n, left)) : Begins text := by
  obtain ⟨c, rest, shown, starts⟩ := Numeral.read_head found
  refine ⟨c, rest, shown, ?_⟩
  cases starts with
  | inl minus =>
    rw [minus]
    exact ⟨rfl, by decide⟩
  | inr digit =>
    have other {d : Char} (odd : d.isDigit = false) : c ≠ d := by
      intro same
      rw [← same, digit] at odd
      cases odd
    simp [isGap, other]

theorem Readable.begins {json : Json} (readable : json.Readable) : Begins json.write.toList := by
  cases readable with
  | null => exact ⟨'n', _, rfl, rfl, by decide⟩
  | @bool value =>
    cases value with
    | true => exact ⟨'t', _, rfl, rfl, by decide⟩
    | false => exact ⟨'f', _, rfl, rfl, by decide⟩
  | number faithful =>
    obtain ⟨n, read, -⟩ := faithful
    exact begins_numeral read
  | @string value => exact ⟨'"', _, toList_quoted value, rfl, by decide⟩
  | @array items parts => exact ⟨'[', _, toList_array items, rfl, by decide⟩
  | @object entries parts => exact ⟨'\x7b', _, toList_object entries, rfl, by decide⟩

-- What is read of the text of a JSON value, in front of any text that does not go on with it. As many
-- calls as the text has characters are enough.
structure Written.Spells (written : Written) (json : Json) : Prop where
  value : written.toJson? = some json
  begins : Begins json.write.toList
  read : ∀ depth rest, json.write.toList.length ≤ depth → Numeral.Stops rest →
    value? depth (json.write.toList ++ rest) = some (written, rest)

-- Behind the opening bracket, arrays and objects are read in the same way: one part in each call, up to
-- the closing bracket.
structure RowReader (α : Type) where
  read? : Nat → List α → List Char → Option (Written × List Char)
  build : List α → Written
  close : Char

structure RowReader.Takes (reader : RowReader α) (part : α) (text : List Char) : Prop where
  comma : ∀ depth done rest, text.length ≤ depth →
    reader.read? (depth + 1) done (text ++ ',' :: rest) = reader.read? depth (part :: done) rest
  last : ∀ depth done rest, text.length ≤ depth →
    reader.read? (depth + 1) done (text ++ reader.close :: rest) =
      some (reader.build (part :: done).reverse, rest)

-- By induction on the row: each call leaves as much depth as the rest of the row has characters.
theorem RowReader.reads {reader : RowReader α}
    (taken : List.Forall₂ reader.Takes (part :: parts) (text :: texts))
    (room : (row (text :: texts)).length < depth) (done : List α) (rest : List Char) :
    reader.read? depth done (row (text :: texts) ++ reader.close :: rest) =
      some (reader.build (done.reverse ++ part :: parts), rest) := by
  induction texts generalizing depth done part parts text with
  | nil =>
    cases taken with
    | cons here later =>
      cases later
      cases depth with
      | zero => cases room
      | succ depth =>
        rw [row_single] at room ⊢
        rw [here.last depth done rest (by omega), List.reverse_cons]
  | cons next texts ih =>
    cases taken with
    | cons here later =>
      cases parts with
      | nil => cases later
      | cons follower parts =>
        cases depth with
        | zero => cases room
        | succ depth =>
          rw [row_cons] at room ⊢
          simp only [List.length_append, List.length_cons] at room
          rw [List.append_assoc, List.cons_append, here.comma depth done _ (by omega),
            ih later (by omega), List.reverse_cons, List.append_assoc, List.singleton_append]

def itemReader : RowReader Written := ⟨items?, .array, ']'⟩

def entryReader : RowReader (Option String × Written) := ⟨entries?, .object, '\x7d'⟩

section Parts
variable {written : Written} {json : Json}

theorem itemReader_takes (spells : written.Spells json) :
    itemReader.Takes written json.write.toList := by
  constructor
  · intro depth done rest room
    have read := spells.read depth (',' :: rest) room (Numeral.stops_cons (by decide) rest)
    simp only [itemReader]
    rw [items?, spells.begins.skipGap_eq, read]
    rfl
  · intro depth done rest room
    have read := spells.read depth (']' :: rest) room (Numeral.stops_cons (by decide) rest)
    simp only [itemReader]
    rw [items?, spells.begins.skipGap_eq, read]
    rfl

theorem entryReader_takes (spells : written.Spells json) (key : String) :
    entryReader.Takes (some key, written) (entryText (key, json)) := by
  have shown (rest : List Char) : entryText (key, json) ++ rest =
      '"' :: (key.toList.flatMap escaped ++ '"' :: ':' :: (json.write.toList ++ rest)) := by
    simp [entryText_eq]
  have part : json.write.toList.length ≤ (entryText (key, json)).length := by
    simp only [entryText, List.length_append, List.length_cons]
    omega
  have colon (text : List Char) : skipGap (':' :: text) = ':' :: text := skipGap_cons rfl text
  constructor
  · intro depth done rest room
    have read := spells.read depth (',' :: rest) (by omega) (Numeral.stops_cons (by decide) rest)
    simp only [entryReader]
    rw [shown, entries?, skipGap_cons rfl]
    simp only [string_quoted, colon, spells.begins.skipGap_eq, read]
    rfl
  · intro depth done rest room
    have read := spells.read depth ('\x7d' :: rest) (by omega) (Numeral.stops_cons (by decide) rest)
    simp only [entryReader]
    rw [shown, entries?, skipGap_cons rfl]
    simp only [string_quoted, colon, spells.begins.skipGap_eq, read]
    rfl

end Parts

def SpellsEntry (one : Option String × Written) (entry : String × Json) : Prop :=
  one.1 = some entry.1 ∧ one.2.Spells entry.2

theorem itemsToJson_spelled (spelled : List.Forall₂ Written.Spells writtens items) :
    itemsToJson? writtens = some items := by
  induction spelled with
  | nil => rfl
  | cons here later ih => rw [itemsToJson?, here.value, ih]

theorem entriesToJson_spelled (spelled : List.Forall₂ SpellsEntry writtens entries) :
    entriesToJson? writtens = some entries := by
  induction spelled with
  | nil => rfl
  | @cons one entry writtens entries here later ih =>
    obtain ⟨key, written⟩ := one
    obtain ⟨same, spells⟩ := here
    simp only at same spells
    rw [same, entriesToJson?, spells.value, ih]

theorem exists_forall₂ {R : α → β → Prop} (each : ∀ b ∈ bs, ∃ a, R a b) :
    ∃ as, List.Forall₂ R as bs := by
  induction bs with
  | nil => exact ⟨[], .nil⟩
  | cons b bs ih =>
    obtain ⟨⟨a, here⟩, later⟩ := List.forall_mem_cons.mp each
    obtain ⟨as, others⟩ := ih later
    exact ⟨a :: as, .cons here others⟩

theorem Written.Spells.of_step {written : Written} {json : Json} (readable : json.Readable)
    (value : written.toJson? = some json)
    (step : ∀ depth rest, json.write.toList.length ≤ depth + 1 → Numeral.Stops rest →
      value? (depth + 1) (json.write.toList ++ rest) = some (written, rest)) : written.Spells json := by
  refine ⟨value, readable.begins, ?_⟩
  intro depth rest room stops
  cases depth with
  | zero =>
    obtain ⟨c, tail, shown, -⟩ := readable.begins
    rw [shown] at room
    cases room
  | succ depth => exact step depth rest room stops

theorem value_number (found : Numeral.read? text = some (n, [])) (stops : Numeral.Stops rest)
    (depth : Nat) : value? (depth + 1) (text ++ rest) = some (.number n, rest) := by
  have whole := Numeral.read_append stops found
  obtain ⟨c, tail, shown, starts⟩ := Numeral.read_head found
  rw [shown, List.cons_append] at whole ⊢
  have other (d : Char) (odd : d ≠ '-' ∧ d.isDigit = false) : c ≠ d := by
    intro same
    rw [same] at starts
    cases starts with
    | inl minus => exact odd.1 minus
    | inr digit =>
      rw [odd.2] at digit
      cases digit
  have noNull : strip? "null".toList (c :: (tail ++ rest)) = none :=
    if_neg (Ne.symm (other 'n' (by decide)))
  have noTrue : strip? "true".toList (c :: (tail ++ rest)) = none :=
    if_neg (Ne.symm (other 't' (by decide)))
  have noFalse : strip? "false".toList (c :: (tail ++ rest)) = none :=
    if_neg (Ne.symm (other 'f' (by decide)))
  rw [value?]
  · rw [noNull, noTrue, noFalse, whole]
    rfl
  · intro _ same
    exact other '"' (by decide) (List.cons.inj same).1
  · intro _ same
    exact other '[' (by decide) (List.cons.inj same).1
  · intro _ same
    exact other '\x7b' (by decide) (List.cons.inj same).1

theorem value_array (begins : Begins text) (texts : List (List Char)) (depth : Nat) (rest : List Char) :
    value? (depth + 1) ('[' :: (row (text :: texts) ++ rest)) =
      itemReader.read? depth [] (row (text :: texts) ++ rest) := by
  obtain ⟨c, tail, shown, solid, inside⟩ := begins
  obtain ⟨more, front⟩ := row_front c tail texts
  rw [shown, front, List.cons_append, value?, skipGap_cons solid]
  split
  · rename_i same
    exact absurd (List.cons.inj same).1 inside
  · rfl

theorem value_object (entry : String × Json) (texts : List (List Char)) (depth : Nat) (rest : List Char) :
    value? (depth + 1) ('\x7b' :: (row (entryText entry :: texts) ++ rest)) =
      entryReader.read? depth [] (row (entryText entry :: texts) ++ rest) := by
  obtain ⟨more, front⟩ := row_front '"' _ texts
  rw [entryText_eq, front, List.cons_append, value?, skipGap_cons rfl]
  rfl

theorem Readable.spelled {json : Json} (readable : json.Readable) :
    ∃ written : Written, written.Spells json := by
  induction readable with
  | null =>
    refine ⟨.null, .of_step .null rfl ?_⟩
    intro depth rest _ _
    rfl
  | @bool value =>
    refine ⟨.bool value, .of_step .bool rfl ?_⟩
    intro depth rest _ _
    cases value with
    | true => rfl
    | false => rfl
  | number faithful =>
    obtain ⟨n, read, same⟩ := faithful
    refine ⟨.number n, .of_step (.number ⟨n, read, same⟩) ?_ ?_⟩
    · rw [Written.toJson?, same]
      rfl
    · intro depth rest _ stops
      exact value_number read stops depth
  | @string value =>
    refine ⟨.string (some value), .of_step .string rfl ?_⟩
    intro depth rest _ _
    rw [write, toList_quoted, List.cons_append, List.append_assoc, List.singleton_append, value?,
      string_quoted]
    rfl
  | @array items parts ih =>
    obtain ⟨writtens, spelled⟩ := exists_forall₂ ih
    have taken : List.Forall₂ itemReader.Takes writtens (items.map fun item => item.write.toList) :=
      List.forall₂_map_right_iff.mpr (spelled.imp fun _ _ => itemReader_takes)
    refine ⟨.array writtens, .of_step (.array parts) ?_ ?_⟩
    · rw [Written.toJson?, itemsToJson_spelled spelled]
      rfl
    · intro depth rest room _
      rw [toList_array] at room ⊢
      cases spelled with
      | nil => rfl
      | cons here later =>
        simp only [List.map_cons, List.length_cons, List.length_append] at room taken ⊢
        rw [List.cons_append, List.append_assoc, value_array here.begins]
        exact RowReader.reads taken (by omega) [] rest
  | @object entries parts ih =>
    have named : ∀ entry ∈ entries, ∃ one, SpellsEntry one entry := by
      intro entry member
      obtain ⟨written, spells⟩ := ih entry member
      exact ⟨(some entry.1, written), rfl, spells⟩
    obtain ⟨writtens, spelled⟩ := exists_forall₂ named
    have taken : List.Forall₂ entryReader.Takes writtens (entries.map entryText) := by
      apply List.forall₂_map_right_iff.mpr
      apply spelled.imp
      intro one entry held
      obtain ⟨key, written⟩ := one
      obtain ⟨same, spells⟩ := held
      simp only at same spells
      rw [same]
      exact entryReader_takes spells entry.1
    refine ⟨.object writtens, .of_step (.object parts) ?_ ?_⟩
    · rw [Written.toJson?, entriesToJson_spelled spelled]
      rfl
    · intro depth rest room _
      rw [toList_object] at room ⊢
      cases spelled with
      | nil => rfl
      | cons here later =>
        simp only [List.map_cons, List.length_cons, List.length_append] at room taken ⊢
        rw [List.cons_append, List.append_assoc, value_object]
        exact RowReader.reads taken (by omega) [] rest

theorem parse_write {json : Json} (readable : json.Readable) : parse? json.write = some json := by
  obtain ⟨written, spells⟩ := readable.spelled
  have whole := spells.read (2 * json.write.toList.length + 2) [] (by omega) Numeral.stops_nil
  have start := spells.begins.skipGap_eq []
  rw [List.append_nil] at whole start
  have read : Written.read? json.write.toList = some written := by
    rw [Written.read?, start, whole]
    rfl
  rw [parse?, read, Option.bind_some, spells.value]

end Mustache.Json
