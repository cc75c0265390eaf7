import Mustache.Text.Blank
import Mustache.Text.Search

namespace Mustache
open Text

-- An open delimiter with what stands before it: text, the line break that ends it (empty at the
-- start of the source, absent where the line goes on), and the blanks next to the delimiter.
structure Opening where
  before : List Char
  lineStart : Option (List Char)
  indent : List Char
  rest : List Char
deriving DecidableEq, Repr

namespace Opening

def lineBreak (o : Opening) : List Char := o.lineStart.getD []

def lead (o : Opening) : List Char := o.before ++ o.lineBreak ++ o.indent

-- The longest run of blanks that is followed by the delimiter. It need not be the whole run where
-- the delimiter is empty or begins with a blank itself.
def indented? (delimiter : List Char) : List Char → Option (List Char × List Char)
  | [] => (strip? delimiter []).map ([], ·)
  | c :: text =>
    match if isBlank c then indented? delimiter text else none with
    | some (indent, rest) => some (c :: indent, rest)
    | none => (strip? delimiter (c :: text)).map ([], ·)

def afterBreak? (delimiter text : List Char) : Option Opening :=
  match lineBreak? text with
  | none => none
  | some (lineBreak, after) =>
    match indented? delimiter after with
    | none => none
    | some (indent, rest) => some ⟨[], some lineBreak, indent, rest⟩

def inLine? (delimiter text : List Char) : Option Opening :=
  match indented? delimiter text with
  | none => none
  | some (indent, rest) => some ⟨[], none, indent, rest⟩

def here? (delimiter text : List Char) : Option Opening :=
  match afterBreak? delimiter text with
  | some o => some o
  | none => inLine? delimiter text

def atStart? (delimiter text : List Char) : Option Opening :=
  match indented? delimiter text with
  | none => none
  | some (indent, rest) => some ⟨[], some [], indent, rest⟩

def find? (delimiter : List Char) (sourceStart : Bool) (text : List Char) : Option Opening :=
  match if sourceStart then atStart? delimiter text else none with
  | some o => some o
  | none =>
    match first (here? delimiter) text with
    | none => none
    | some (passed, o) => some { o with before := passed }

theorem indented_append (found : indented? delimiter text = some (blanks, after)) :
    text = blanks ++ delimiter ++ after := by
  induction text generalizing blanks with
  | nil =>
    simp only [indented?, Option.map_eq_some_iff, Prod.mk.injEq] at found
    obtain ⟨after, stripped, rfl, rfl⟩ := found
    exact strip_eq_some_iff.mp stripped
  | cons c text ih =>
    simp only [indented?] at found
    split at found
    · rename_i inner _ deeper
      simp only [Option.some.injEq, Prod.mk.injEq] at found
      obtain ⟨rfl, rfl⟩ := found
      split at deeper
      · simp [ih deeper]
      · cases deeper
    · simp only [Option.map_eq_some_iff, Prod.mk.injEq] at found
      obtain ⟨after, stripped, rfl, rfl⟩ := found
      exact strip_eq_some_iff.mp stripped

theorem indented_blank (found : indented? delimiter text = some (blanks, after)) :
    ∀ c ∈ blanks, isBlank c = true := by
  induction text generalizing blanks with
  | nil =>
    simp only [indented?, Option.map_eq_some_iff, Prod.mk.injEq] at found
    obtain ⟨_, _, rfl, _⟩ := found
    simp
  | cons c text ih =>
    simp only [indented?] at found
    split at found
    · rename_i inner _ deeper
      simp only [Option.some.injEq, Prod.mk.injEq] at found
      obtain ⟨rfl, rfl⟩ := found
      split at deeper
      · rename_i blank
        intro d member
        rcases List.mem_cons.mp member with rfl | member
        · exact blank
        · exact ih deeper d member
      · cases deeper
    · simp only [Option.map_eq_some_iff, Prod.mk.injEq] at found
      obtain ⟨_, _, rfl, _⟩ := found
      simp

theorem here_append (found : here? delimiter text = some o) :
    o.before = [] ∧ text = o.lineBreak ++ o.indent ++ delimiter ++ o.rest := by
  unfold here? at found
  split at found
  · rename_i broken
    cases Option.some.inj found
    unfold afterBreak? at broken
    split at broken
    · cases broken
    · rename_i broke
      split at broken
      · cases broken
      · rename_i inner
        cases Option.some.inj broken
        refine ⟨rfl, ?_⟩
        rw [lineBreak_append broke, indented_append inner]
        simp [Opening.lineBreak]
  · unfold inLine? at found
    split at found
    · cases found
    · rename_i plain
      cases Option.some.inj found
      exact ⟨rfl, by rw [indented_append plain]; simp [Opening.lineBreak]⟩

theorem find_append (found : find? delimiter sourceStart text = some o) :
    text = o.lead ++ delimiter ++ o.rest := by
  unfold find? at found
  split at found
  · rename_i start
    cases Option.some.inj found
    split at start
    · unfold atStart? at start
      split at start
      · cases start
      · rename_i plain
        cases Option.some.inj start
        rw [indented_append plain]
        simp [lead, lineBreak]
    · cases start
  · split at found
    · cases found
    · rename_i searched
      cases Option.some.inj found
      obtain ⟨⟨_, rfl, hit⟩, _⟩ := first_eq_some searched
      rw [(here_append hit).2]
      simp [lead, lineBreak, List.append_assoc]

end Opening
end Mustache
