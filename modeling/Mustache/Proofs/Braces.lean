import Mustache.Proofs.Balance
import Mustache.Proofs.Reading
import Mustache.Proofs.Run

namespace Mustache
open Text

namespace Closing

theorem replicate_append_three (n : Nat) (lead after : List Char) :
    lead ++ ['}', '}', '}'] <+: lead ++ List.replicate (n + 1 + 2) '}' ++ after := by
  refine ⟨List.replicate n '}' ++ after, ?_⟩
  rw [show List.replicate (n + 1 + 2) '}' = ['}', '}', '}'] ++ List.replicate n '}' by
    simp [List.replicate_succ]]
  simp only [List.append_assoc]

theorem first_iff (ends : Ends ['}', '}'] text inside after) : First ['}', '}'] text inside ↔
    ∀ lead, First ['}', '}'] text lead → ¬ lead ++ ['}', '}', '}'] <+: text := by
  cases ends with
  | plain other => exact absurd rfl other
  | @braces _ lead n _ first parts stops =>
    constructor
    · intro whole other found third
      obtain rfl := found.unique first
      have none : List.replicate n '}' = [] := by simpa using first.unique whole
      obtain rfl : n = 0 := by simpa using none
      obtain ⟨more, same⟩ := third
      rw [parts] at same
      have next : '}' :: more = after := by simpa [List.replicate_succ] using same
      rw [← next] at stops
      exact stops rfl
    · intro alone
      cases n with
      | zero => simpa using first
      | succ n =>
        refine absurd ?_ (alone lead first)
        rw [parts]
        exact replicate_append_three n lead after

end Closing

namespace Stretch
variable {t : Stretch}

def EndsFirst (t : Stretch) : Prop := First ['}', '}'] t.opening.rest t.closing.body

theorem around_interpolation (shown : t.tag = some (.interpolation key escaped)) :
    t.kept = t.opening.lead ∧ t.next.rest = t.closing.rest ∧ t.next.active = t.scan.active := by
  have shared : t.isStandalone = false := by
    have inter : (t.scan.tagOf t.opening t.closing).any Tag.isInterpolation = true := by
      rw [show t.scan.tagOf t.opening t.closing = t.tag from rfl, shown]
      rfl
    simp [isStandalone, Scan.isStandalone, inter]
  have opens : t.closes = false := by
    rw [closes, shown]
    rfl
  refine ⟨kept_of_not_standalone shared, ?_, ?_⟩
  · simp [next, shared, opens, cutLineEnd]
  · simp only [next, shown]
    rfl

end Stretch

theorem Scan.endsFirst_iff (extent : s.active.HasExtent) (member : t ∈ stretches s)
    (standard : t.scan.active = .standard) : t.EndsFirst ↔
      ∀ lead, First ['}', '}'] t.opening.rest lead →
        ¬ lead ++ ['}', '}', '}'] <+: t.opening.rest := by
  obtain ⟨earlier, later, split⟩ := List.append_of_mem member
  obtain ⟨-, sound, -⟩ := reaches_of_stretches extent split
  have ends := sound.ends
  rw [standard] at ends
  exact Closing.first_iff ends

theorem Scan.mem_of_stretch (met : stretch? s = some t) (extent : s.active.HasExtent) :
    t ∈ s.stretches := by
  rw [(stretches_of_some met extent).1]
  exact List.mem_cons_self

theorem Scan.items_of_absent (absent : ¬ s.active.opening.toList <:+: s.rest)
    (fresh : waiting s = none) : s.items = yielded s.rest none := by
  have ended : s.stretch? = none := by
    cases met : s.stretch? with
    | none => rfl
    | some t =>
      obtain ⟨rfl, sound, -⟩ := stretch_sound met
      exact absurd ⟨t.opening.lead, t.opening.rest, sound.opens.whole.symm⟩ absent
  rw [items_of_none ended fresh]
  rcases ending_cases ended with ⟨empty, ending⟩ | ⟨full, -, ending⟩ | ⟨o, fits, -, -⟩
  · rw [ending, empty]
    rfl
  · rw [ending]
    simp [yielded, full]
  · exact absurd ⟨o.lead, o.rest, fits.whole.symm⟩ absent

namespace Text

theorem trim_of_edges (front : ∀ c ∈ text.head?, isSpace c = false)
    (back : ∀ c ∈ text.getLast?, isSpace c = false) : trim text = text := by
  have kept : ∀ {run : List Char}, (∀ c ∈ run.head?, isSpace c = false) → trimStart run = run := by
    intro run starts
    cases run with
    | nil => rfl
    | cons c run => simp [trimStart, starts c rfl]
  rw [trim, kept front, kept, List.reverse_reverse]
  intro c last
  rw [List.head?_reverse] at last
  exact back c last

theorem trim_length (text : List Char) : (trim text).length ≤ text.length := by
  have shorter : ∀ run : List Char, (trimStart run).length ≤ run.length :=
    fun run => (List.dropWhile_suffix isSpace).length_le
  have outer := shorter (trimStart text).reverse
  have inner := shorter text
  rw [List.length_reverse] at outer
  rw [trim, List.length_reverse]
  omega

theorem front_of_trimmed (trimmed : trim text = text) : ∀ c ∈ text.head?, isSpace c = false := by
  intro c first
  obtain ⟨rest, rfl⟩ := List.head?_eq_some_iff.mp first
  cases space : isSpace c with
  | false => rfl
  | true =>
    -- A space in front would be missing from what is left.
    have shorter := trim_length rest
    have dropped : trim (c :: rest) = trim rest := by simp [trim, trimStart, space]
    rw [dropped] at trimmed
    rw [trimmed, List.length_cons] at shorter
    omega

end Text

-- A key that makes a variable tag by itself: there is no brace in it, and no sigil in front.
structure IsBareKey (key : String) : Prop extends IsKey .standard key where
  full : key ≠ ""
  opening : '{' ∉ key.toList
  plain : IsPlain key

namespace IsBareKey

theorem cons (bare : IsBareKey key) : ∃ c rest, key.toList = c :: rest := by
  apply List.exists_cons_of_ne_nil
  intro none
  exact bare.full (String.toList_inj.mp none)

theorem keyOf_braces (bare : IsBareKey key) (n : Nat) :
    Tag.keyOf (key.toList ++ List.replicate n '}') = key ++ String.ofList (List.replicate n '}') := by
  have edges : trim (key.toList ++ List.replicate n '}') = key.toList ++ List.replicate n '}' := by
    cases n with
    | zero => simpa using bare.trimmed
    | succ n =>
      obtain ⟨c, rest, shape⟩ := bare.cons
      apply trim_of_edges
      · intro d first
        apply front_of_trimmed bare.trimmed
        rw [shape] at first ⊢
        exact first
      · intro d last
        rw [List.replicate_succ', ← List.append_assoc, List.getLast?_concat] at last
        cases last
        decide
  apply String.toList_inj.mp
  rw [Tag.keyOf, edges, String.toList_ofList, String.toList_append, String.toList_ofList]

theorem reads (bare : IsBareKey key) (n : Nat) (span : Tag.Span) (indent : List Char) :
    Tag.ofBody .standard span indent (key.toList ++ List.replicate n '}') =
      some (.interpolation (key ++ String.ofList (List.replicate n '}')) true) := by
  obtain ⟨c, rest, shape⟩ := bare.cons
  have named := bare.keyOf_braces n
  have apart : c ≠ '{' := by
    rintro rfl
    apply bare.opening
    simp [shape]
  have sigil := bare.plain c (by simp [shape])
  rw [shape, List.cons_append] at named ⊢
  rw [Tag.ofBody_plain sigil, named]
  simp [Tag.braced?, apart]

end IsBareKey

def textNodes (text : String) : List Node := if text = "" then [] else [.text text]

theorem Document.ofItems_interpolation (source : List Char) (before after key : String)
    (escaped : Bool) :
    ofItems source (Scan.yielded before.toList (some (.interpolation key escaped)) ++
      Scan.yielded after.toList none) =
        .ok ⟨textNodes before ++ .interpolation key escaped :: textNodes after, []⟩ := by
  unfold Scan.yielded textNodes
  by_cases first : before = "" <;> by_cases second : after = "" <;>
    simp only [List.isEmpty_iff, String.toList_eq_nil_iff, first, second, if_true, if_false,
      String.ofList_toList] <;> rfl

def besideVariable (before : List Char) (key : String) (n : Nat) (tail : List Char) : List Char :=
  before ++ Delimiters.standard.opening.toList ++
    (key.toList ++ List.replicate (n + 2) '}' ++ tail)

theorem stretch_variable (bare : IsBareKey key) (plain : '{' ∉ before) (n : Nat)
    (stops : tail.head? ≠ some '}') :
    ∃ t, (Scan.start (besideVariable before key n tail) .standard).stretch? = some t ∧
      t.opening.lead = before ∧ t.closing = ⟨key.toList ++ List.replicate n '}', tail⟩ := by
  have absent : ∀ c ∈ Delimiters.standard.opening.toList.head?, c ∉ before := by
    intro c first
    cases first
    exact plain
  obtain ⟨o, opened, lead, inner⟩ := find_of_absent true
    (key.toList ++ List.replicate (n + 2) '}' ++ tail) Delimiters.standard_words.opening absent
  have first : First ['}', '}'] (key.toList ++ List.replicate (n + 2) '}' ++ tail) key.toList := by
    have ends : First ['}', '}'] (key.toList ++ ['}', '}'] ++ (List.replicate n '}' ++ tail))
        key.toList := First.of_head_notMem (bare.closing '}' rfl)
    simpa [List.replicate_succ] using ends
  have closed := Closing.find_of_ends (.braces first rfl stops)
  rw [← inner] at closed
  have full : (besideVariable before key n tail).isEmpty = false := by
    simp [besideVariable, Delimiters.standard]
  refine ⟨⟨Scan.start (besideVariable before key n tail) .standard, o,
    ⟨key.toList ++ List.replicate n '}', tail⟩⟩, ?_, lead, rfl⟩
  unfold Scan.stretch? Scan.start
  simp only [full, Bool.false_eq_true, if_false]
  rw [show Opening.find? Delimiters.standard.opening.toList (decide True)
    (besideVariable before key n tail) = some o from opened]
  exact congrArg (Option.map _) closed

theorem items_variable (bare : IsBareKey key) (plain : '{' ∉ before) (n : Nat)
    (stops : tail.head? ≠ some '}') (absent : ¬ ['{', '{'] <:+: tail) :
    (Scan.start (besideVariable before key n tail) .standard).items =
      Scan.yielded before (some (.interpolation (key ++ String.ofList (List.replicate n '}')) true)) ++
        Scan.yielded tail none := by
  obtain ⟨t, met, lead, closing⟩ := stretch_variable bare plain n stops
  have same := (Scan.stretch_sound met).1
  have active : t.scan.active = .standard := by
    rw [same]
    rfl
  have tag : t.tag = some (.interpolation (key ++ String.ofList (List.replicate n '}')) true) := by
    rw [t.tag_eq, closing, active]
    exact bare.reads n _ _
  obtain ⟨kept, left, onward⟩ := Stretch.around_interpolation tag
  replace left : t.next.rest = tail := left.trans (congrArg Closing.rest closing)
  have later : t.next.items = Scan.yielded tail none := by
    rw [← left]
    apply Scan.items_of_absent
    · rw [left, onward, active]
      exact absent
    · rfl
  have extent : Delimiters.standard.HasExtent := Delimiters.standard_words.clear.hasExtent
  rw [Scan.items_of_some met extent rfl, kept, lead, tag, later]

def withVariable (before key after : String) : String :=
  before ++ Delimiters.standard.opening ++ key ++ Delimiters.standard.closing ++ after

theorem Document.parse_braces (bare : IsBareKey key) (plain : '{' ∉ before.toList)
    (parts : after.toList = List.replicate n '}' ++ tail) (stops : tail.head? ≠ some '}')
    (absent : ¬ ['{', '{'] <:+: tail) : parse (withVariable before key after) =
      .ok ⟨textNodes before ++ .interpolation (key ++ String.ofList (List.replicate n '}')) true ::
        textNodes (String.ofList tail), []⟩ := by
  have whole : (withVariable before key after).toList = besideVariable before.toList key n tail := by
    have moved : List.replicate (n + 2) '}' = ['}', '}'] ++ List.replicate n '}' := by
      simp [List.replicate_succ]
    rw [besideVariable, moved]
    simp [withVariable, parts, Delimiters.standard]
  have items := items_variable bare plain n stops absent
  have read := ofItems_interpolation (besideVariable before.toList key n tail) before
    (String.ofList tail) (key ++ String.ofList (List.replicate n '}')) true
  rw [String.toList_ofList, ← items, ← whole] at read
  unfold parse parseWith
  rw [Scan.start_standard]
  exact read

def leadingBraces (text : List Char) : List Char := text.takeWhile (· = '}')

theorem leadingBraces_empty_iff : leadingBraces text = [] ↔ text.head? ≠ some '}' := by
  cases text with
  | nil => simp [leadingBraces]
  | cons c text => by_cases brace : c = '}' <;> simp [leadingBraces, brace]

-- Under the standard pair a tag ends with the first two closing braces exactly when no third one
-- follows them, whatever its body begins with. So the text behind a variable tag loses the braces it
-- begins with to the key of the tag, and is left alone exactly when it begins with none.
theorem first_braces_iff (started : Scan.start? source pair = .ok s) (extent : pair.HasExtent) :
    (∀ t ∈ s.stretches, t.scan.active = .standard → (t.EndsFirst ↔
      ∀ lead, First ['}', '}'] t.opening.rest lead →
        ¬ lead ++ ['}', '}', '}'] <+: t.opening.rest)) ∧
    ∀ before key after : String, source = withVariable before key after → '{' ∉ before.toList →
      IsBareKey key → ¬ ['{', '{'] <:+: after.toList →
        (∃ tail, after.toList = leadingBraces after.toList ++ tail ∧
          Document.parse source = .ok ⟨textNodes before ++
            .interpolation (key ++ String.ofList (leadingBraces after.toList)) true ::
              textNodes (String.ofList tail), []⟩) ∧
        (Document.parse source =
            .ok ⟨textNodes before ++ .interpolation key true :: textNodes after, []⟩ ↔
          after.toList.head? ≠ some '}') := by
  obtain ⟨-, rfl⟩ := Scan.start_eq_ok_iff.mp started
  constructor
  · intro t member standard
    have same : (Scan.start source.toList pair).active.HasExtent := extent
    exact Scan.endsFirst_iff same member standard
  · intro before key after shape plain bare absent
    subst shape
    have parts : after.toList = leadingBraces after.toList ++ after.toList.dropWhile (· = '}') :=
      List.takeWhile_append_dropWhile.symm
    have stops := head_dropWhile (· = '}') after.toList
    obtain ⟨n, run⟩ : ∃ n, leadingBraces after.toList = List.replicate n '}' :=
      Closing.takeWhile_brace after.toList
    generalize after.toList.dropWhile (· = '}') = tail at parts stops
    have missing : ¬ ['{', '{'] <:+: tail := by
      intro stands
      apply absent
      rw [parts]
      exact stands.trans (List.suffix_append _ _).isInfix
    have ended : tail.head? ≠ some '}' := by
      intro more
      simpa using stops '}' more
    have read : Document.parse (withVariable before key after) = _ :=
      Document.parse_braces bare plain (run ▸ parts) ended missing
    rw [← run] at read
    refine ⟨⟨tail, parts, read⟩, ?_⟩
    rw [read, ← leadingBraces_empty_iff]
    constructor
    · intro same
      -- The two documents differ in the key of the variable as soon as there is a brace.
      have nodes := congrArg Document.root (Except.ok.inj same)
      have shown := List.head_eq_of_cons_eq (List.append_cancel_left nodes)
      injection shown with keys
      have chars := congrArg String.toList keys
      simpa using chars
    · intro none
      rw [none, List.nil_append] at parts
      rw [none, ← parts, String.ofList_toList]
      simp

namespace SpacedBrace

def source : String := withVariable "[" "k" " \x7d]"

def scan : Scan := .start source.toList .standard

def tag : Stretch where
  scan := scan
  opening := ⟨['['], none, [], "k\x7d\x7d \x7d]".toList⟩
  closing := ⟨['k'], " \x7d]".toList⟩

theorem member : tag ∈ scan.stretches :=
  Scan.mem_of_stretch rfl Delimiters.standard_words.clear.hasExtent

theorem isBareKey : IsBareKey "k" where
  trimmed := by decide
  closing := by simp [Delimiters.standard]
  full := by decide
  opening := by decide
  plain := by simp [IsPlain]

theorem first (tail : List Char) : First ['}', '}'] (['k'] ++ ['}', '}'] ++ tail) ['k'] :=
  First.of_head_notMem (by simp)

end SpacedBrace

open SpacedBrace in
theorem first_braces_iff_spaced : tag.EndsFirst ∧
    Document.parse source = .ok ⟨[.text "[", .interpolation "k" true, .text " \x7d]"], []⟩ := by
  have extent : Delimiters.standard.HasExtent := Delimiters.standard_words.clear.hasExtent
  obtain ⟨ends, reads⟩ := first_braces_iff (Scan.start_standard source) extent
  constructor
  · apply (ends tag member rfl).mpr
    intro lead found third
    obtain rfl := found.unique (first " \x7d]".toList)
    exact absurd third (by decide)
  · have kept := reads "[" "k" " \x7d]" rfl (by decide) isBareKey (by decide)
    exact kept.2.mpr (by decide)

namespace JoinedBrace

def source : String := withVariable "" "k" "\x7d"

def scan : Scan := .start source.toList .standard

def tag : Stretch where
  scan := scan
  opening := ⟨[], some [], [], "k\x7d\x7d\x7d".toList⟩
  closing := ⟨['k', '}'], []⟩

theorem member : tag ∈ scan.stretches :=
  Scan.mem_of_stretch rfl Delimiters.standard_words.clear.hasExtent

theorem parsed : Document.parse source = .ok ⟨[.interpolation "k\x7d" true], []⟩ := by
  have parts : "\x7d".toList = List.replicate 1 '}' ++ [] := rfl
  have bare : '{' ∉ "".toList := by decide
  exact Document.parse_braces SpacedBrace.isBareKey bare parts nofun (by decide)

end JoinedBrace

open JoinedBrace in
theorem third_brace_taken :
    (tag ∈ scan.stretches ∧ tag.closing.body.head? ≠ some '{' ∧ ¬ tag.EndsFirst) ∧
    IsBareKey "k" ∧ ¬ ['{', '{'] <:+: "\x7d".toList ∧
      Document.parse source ≠ .ok ⟨[.interpolation "k" true, .text "\x7d"], []⟩ := by
  refine ⟨⟨member, by decide, ?_⟩, SpacedBrace.isBareKey, by decide, ?_⟩
  · intro ends
    exact absurd (ends.unique (SpacedBrace.first ['}'])) (by decide)
  · intro same
    have nodes := congrArg Document.root (Except.ok.inj (parsed.symm.trans same))
    exact absurd nodes (by decide)

end Mustache
