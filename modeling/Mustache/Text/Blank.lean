namespace Mustache.Text

def isBlank (c : Char) : Bool :=
  c = ' ' || c = '\t' || c = '\x0B' || c = '\x0C'

-- The Unicode property White_Space. Keys are trimmed by it, and the halves of a delimiter pair must
-- be free of it.
def isSpace (c : Char) : Bool :=
  let n := c.toNat
  (0x09 ≤ n && n ≤ 0x0D) || n = 0x20 || n = 0x85 || n = 0xA0 || n = 0x1680 ||
    (0x2000 ≤ n && n ≤ 0x200A) || n = 0x2028 || n = 0x2029 || n = 0x202F ||
    n = 0x205F || n = 0x3000

theorem isBlank_iff : isBlank c = true ↔ c = ' ' ∨ c = '\t' ∨ c = '\x0B' ∨ c = '\x0C' := by
  simp [isBlank, or_assoc]

theorem isSpace_of_isBlank (blank : isBlank c = true) : isSpace c = true := by
  rcases isBlank_iff.mp blank with rfl | rfl | rfl | rfl <;> decide

def trimStart (text : List Char) : List Char := text.dropWhile isSpace

def trim (text : List Char) : List Char := (trimStart (trimStart text).reverse).reverse

def lineBreak? : List Char → Option (List Char × List Char)
  | '\n' :: rest => some (['\n'], rest)
  | '\r' :: '\n' :: rest => some (['\r', '\n'], rest)
  | _ => none

-- The end of a line on which only blanks remain: the blanks with the line break, or the blanks
-- alone where the text ends with them.
def lineEnd? (text : List Char) : Option (List Char × List Char) :=
  let blanks := text.takeWhile isBlank
  match text.dropWhile isBlank with
  | [] => some (blanks, [])
  | c :: rest =>
    match lineBreak? (c :: rest) with
    | none => none
    | some (lineBreak, after) => some (blanks ++ lineBreak, after)

def cutLineEnd (drops : Bool) (text : List Char) : List Char × List Char :=
  if drops then (lineEnd? text).getD ([], text) else ([], text)

theorem lineBreak_append (found : lineBreak? text = some (lineBreak, after)) :
    text = lineBreak ++ after := by
  unfold lineBreak? at found
  split at found
  · cases found; rfl
  · cases found; rfl
  · cases found

theorem lineEnd_append (found : lineEnd? text = some (skipped, after)) :
    text = skipped ++ after := by
  have whole := List.takeWhile_append_dropWhile (p := isBlank) (l := text)
  unfold lineEnd? at found
  dsimp only at found
  split at found
  · rename_i done
    cases found
    rw [done, List.append_nil] at whole
    rw [List.append_nil, whole]
  · rename_i c rest kept
    split at found
    · cases found
    · rename_i lineBreak tail broke
      simp only [Option.some.injEq, Prod.mk.injEq] at found
      obtain ⟨rfl, rfl⟩ := found
      rw [List.append_assoc, ← lineBreak_append broke, ← kept, whole]

theorem cutLineEnd_append (drops : Bool) (text : List Char) :
    text = (cutLineEnd drops text).1 ++ (cutLineEnd drops text).2 := by
  unfold cutLineEnd
  split
  · cases ends : lineEnd? text with
    | none => rfl
    | some found => exact lineEnd_append ends
  · rfl

end Mustache.Text
