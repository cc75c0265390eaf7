import Mustache.Escape
import Mustache.Proofs.Crlf
import Mustache.Proofs.Lambdaless
import Mustache.Value.Json

namespace Mustache
open Text

namespace Text

theorem unbroken_nil : Unbroken [] := nofun

theorem unbroken_cons : Unbroken (c :: word) ↔ (c ≠ '\n' ∧ c ≠ '\r') ∧ Unbroken word :=
  List.forall_mem_cons

theorem unbroken_append : Unbroken (a ++ b) ↔ Unbroken a ∧ Unbroken b := List.forall_mem_append

theorem Unbroken.sub (unbroken : Unbroken a) (sub : b ⊆ a) : Unbroken b :=
  fun c member => unbroken c (sub member)

theorem Unbroken.flatMap {word : List Char} {f : Char → List Char}
    (each : ∀ c ∈ word, Unbroken (f c)) :
    Unbroken (word.flatMap f) := by
  intro d member
  obtain ⟨c, found, member⟩ := List.mem_flatMap.mp member
  exact each c found d member

theorem Unbroken.intercalate (between : Unbroken word) (parts : ∀ part ∈ texts, Unbroken part) :
    Unbroken (word.intercalate texts) := by
  induction texts with
  | nil => exact unbroken_nil
  | cons part rest ih =>
    obtain ⟨here, others⟩ := List.forall_mem_cons.mp parts
    cases rest with
    | nil => simpa [List.intercalate] using here
    | cons next rest =>
      have later := ih others
      simp only [List.intercalate, List.intersperse_cons_cons, List.flatten_cons] at later ⊢
      exact unbroken_append.mpr ⟨here, unbroken_append.mpr ⟨between, later⟩⟩

theorem unbroken_nat (n : Nat) : Unbroken (toString n).toList := by
  intro c member
  rw [Nat.toString_eq_repr, Nat.toList_repr] at member
  have digit := Nat.isDigit_of_mem_toDigits (by decide) (by decide) member
  constructor <;> rintro rfl <;> exact absurd digit (by decide)

end Text

namespace FloatStyle

theorem positional_unbroken (unbroken : Unbroken digits) (power : Int) :
    Unbroken (positional digits power) := by
  have zeros (n : Nat) : Unbroken (List.replicate n '0') := by
    intro c member
    rw [List.eq_of_mem_replicate member]
    decide
  unfold positional
  dsimp only
  split
  · simp only [List.cons_append, unbroken_cons, unbroken_append]
    exact ⟨by decide, by decide, zeros _, unbroken⟩
  · split
    · simp only [unbroken_append]
      exact ⟨⟨unbroken, zeros _⟩, by decide⟩
    · simp only [unbroken_append, unbroken_cons]
      exact ⟨unbroken.sub (List.take_subset _ _), by decide, unbroken.sub (List.drop_subset _ _)⟩

theorem scientific_unbroken (unbroken : Unbroken digits) (power : Int) :
    Unbroken (scientific digits power) := by
  unfold scientific
  dsimp only
  refine unbroken_append.mpr ⟨?_, ?_⟩
  · split
    · simp only [unbroken_cons] at unbroken ⊢
      exact ⟨unbroken.1, by decide, unbroken.2⟩
    · exact unbroken
  · refine unbroken_cons.mpr ⟨by decide, unbroken_cons.mpr ⟨?_, unbroken_nat _⟩⟩
    split <;> decide

theorem magnitude_unbroken (style : FloatStyle) (value : Binary) : Unbroken (style.magnitude value) := by
  unfold magnitude
  split
  · decide
  · dsimp only
    split
    · exact positional_unbroken (unbroken_nat _) _
    · exact scientific_unbroken (unbroken_nat _) _

theorem write_unbroken (style : FloatStyle) (value : Binary) : Unbroken (style.write value).toList := by
  rw [write, String.toList_ofList]
  split
  · exact unbroken_cons.mpr ⟨by decide, style.magnitude_unbroken value⟩
  · exact style.magnitude_unbroken value

end FloatStyle

theorem Number.toText_unbroken (number : Number) : Unbroken number.toText.toList := by
  cases number with
  | float value => exact FloatStyle.double.write_unbroken value
  | int value =>
    cases value with
    | ofNat n => exact unbroken_nat n
    | negSucc n =>
      have shown : toString (Int.negSucc n) = "-" ++ toString (n + 1) := rfl
      rw [toText, shown, String.toList_append]
      exact unbroken_append.mpr ⟨by decide, unbroken_nat _⟩

namespace Json

theorem hexDigit_unbroken (small : n < 16) : hexDigit n ≠ '\n' ∧ hexDigit n ≠ '\r' := by
  revert n
  decide

theorem escaped_unbroken (c : Char) : Unbroken (escaped c) := by
  unfold escaped
  split
  all_goals first | decide | skip
  split
  · rename_i low
    simp only [unbroken_cons]
    exact ⟨by decide, by decide, by decide, by decide, hexDigit_unbroken (by omega),
      hexDigit_unbroken (by omega), unbroken_nil⟩
  · rename_i high
    refine unbroken_cons.mpr ⟨⟨?_, ?_⟩, unbroken_nil⟩ <;> rintro rfl <;> exact high (by decide)

theorem quoted_unbroken (text : String) : Unbroken (quoted text).toList := by
  rw [quoted, String.toList_ofList, List.cons_append]
  refine unbroken_cons.mpr ⟨by decide, unbroken_append.mpr ⟨?_, by decide⟩⟩
  exact .flatMap fun c _ => escaped_unbroken c

mutual
theorem write_unbroken (json : Json) : Unbroken json.write.toList := by
  cases json with
  | null => decide
  | bool value => cases value <;> decide
  | number value => exact value.toText_unbroken
  | string text => exact quoted_unbroken text
  | array items =>
    simp only [write, String.toList_append, String.toList_intercalate, unbroken_append]
    refine ⟨⟨by decide, .intercalate (by decide) ?_⟩, by decide⟩
    exact List.forall_mem_map.mpr (writeItems_unbroken items)
  | object entries =>
    simp only [write, String.toList_append, String.toList_intercalate, unbroken_append]
    refine ⟨⟨by decide, .intercalate (by decide) ?_⟩, by decide⟩
    exact List.forall_mem_map.mpr (writeEntries_unbroken entries)
theorem writeItems_unbroken (items : List Json) : ∀ text ∈ writeItems items, Unbroken text.toList := by
  cases items with
  | nil => simp [writeItems]
  | cons item rest => exact List.forall_mem_cons.mpr ⟨write_unbroken item, writeItems_unbroken rest⟩
theorem writeEntries_unbroken (entries : List (String × Json)) :
    ∀ text ∈ writeEntries entries, Unbroken text.toList := by
  cases entries with
  | nil => simp [writeEntries]
  | cons entry rest =>
    obtain ⟨key, value⟩ := entry
    refine List.forall_mem_cons.mpr ⟨?_, writeEntries_unbroken rest⟩
    simp only [String.toList_append, unbroken_append]
    exact ⟨⟨quoted_unbroken key, by decide⟩, write_unbroken value⟩
end

end Json

theorem Escape.apply_unbroken (escape : Escape) (unbroken : Unbroken text.toList) :
    Unbroken (escape.apply text).toList := by
  cases escape with
  | verbatim => exact unbroken
  | html =>
    rw [apply, toList_escapeHtml]
    refine .flatMap fun c member => ?_
    unfold entity
    split
    all_goals first | decide | exact unbroken_cons.mpr ⟨unbroken c member, unbroken_nil⟩

namespace Value

def Lineless (host : Host) (data : Value) : Prop :=
  ∀ value, Within host data value → (∀ run, value = .text run → Unbroken run.toList) ∧
    ∀ r, value = .record r → Unbroken r.text.toList

theorem lineless_text (host : Host) (unbroken : Unbroken run.toList) : Lineless host (.text run) := by
  intro value within
  rw [within.eq_of_leaf nofun nofun nofun]
  exact ⟨fun own same => by cases same; exact unbroken, nofun⟩

theorem Lineless.toText (lineless : Lineless host data) (within : Within host data value) :
    Unbroken value.toText.toList := by
  cases value with
  | null | lambda _ => exact unbroken_nil
  | bool value => cases value <;> decide
  | number value => exact value.toText_unbroken
  | text run => exact (lineless _ within).1 run rfl
  | record r => exact (lineless _ within).2 r rfl
  | list items | map entries => exact Json.write_unbroken _

end Value
end Mustache
