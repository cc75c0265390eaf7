import Mustache.Proofs.Closing
import Mustache.Proofs.Opening
import Mustache.Proofs.Words

namespace Mustache
open Text

def Delimiters.HasExtent (pair : Delimiters) : Prop :=
  0 < size pair.opening.toList + size pair.closing.toList

theorem Delimiters.Clear.hasExtent {pair : Delimiters} (clear : pair.Clear) : pair.HasExtent := by
  obtain ⟨c, rest, opens, -⟩ := clear.opens
  have positive := c.utf8Size_pos
  simp only [HasExtent, opens, size_cons]
  omega

-- A tag of a scan, comments included: the scan that came upon it, and what was read.
structure Stretch where
  scan : Scan
  opening : Opening
  closing : Closing

namespace Stretch

def span (t : Stretch) : Tag.Span := t.scan.spanOf t.opening t.closing

def tag (t : Stretch) : Option Tag := t.scan.tagOf t.opening t.closing

def isInterpolation (t : Stretch) : Bool := t.tag.any Tag.isInterpolation

def isStandalone (t : Stretch) : Bool := t.scan.isStandalone t.opening t.closing

def closes (t : Stretch) : Bool := closesDefinition t.tag t.scan.blocks

def kept (t : Stretch) : List Char :=
  if t.isStandalone then t.opening.before ++ t.opening.lineBreak else t.opening.lead

def dropped (t : Stretch) : List Char := if t.isStandalone then t.opening.indent else []

def skipped (t : Stretch) : List Char :=
  (cutLineEnd (t.isStandalone || t.closes) t.closing.rest).1

def next (t : Stretch) : Scan where
  rest := (cutLineEnd (t.isStandalone || t.closes) t.closing.rest).2
  offset := t.span.stop + size t.skipped
  active := activeAfter t.tag t.scan.blocks t.scan.active
  blocks := blocksAfter t.tag t.scan.blocks
  afterDefinition := t.closes
  waiting := none

theorem kept_dropped (t : Stretch) : t.opening.lead = t.kept ++ t.dropped := by
  unfold kept dropped
  split
  · rfl
  · rw [List.append_nil]

theorem skipped_rest (t : Stretch) : t.closing.rest = t.skipped ++ t.next.rest :=
  cutLineEnd_append _ _

theorem kept_of_not_standalone (shared : isStandalone t = false) : t.kept = t.opening.lead := by
  simp [kept, shared]

theorem not_standalone {t : Stretch} (goesOn : t.scan.beginsLine t.opening = false) :
    t.isStandalone = false := by
  simp [isStandalone, Scan.isStandalone, Scan.isAlone, goesOn]

theorem tag_eq (t : Stretch) :
    t.tag = Tag.ofBody t.scan.active t.span t.dropped t.closing.body := by
  cases alone : t.isStandalone with
  | true =>
    have begins : t.scan.isAlone t.opening t.closing = true := by
      unfold isStandalone Scan.isStandalone at alone
      exact (Bool.and_eq_true _ _ ▸ alone).1
    simp only [tag, Scan.tagOf, begins, dropped, alone, if_true, span]
  | false =>
    simp only [dropped, alone, Bool.false_eq_true, if_false]
    unfold tag Scan.tagOf
    cases begins : t.scan.isAlone t.opening t.closing with
    | false => rfl
    | true =>
      have inter : (t.scan.tagOf t.opening t.closing).any Tag.isInterpolation = true := by
        simpa [isStandalone, Scan.isStandalone, begins] using alone
      rw [Scan.tagOf, begins, if_pos rfl] at inter
      rw [if_pos rfl]
      refine (Tag.ofBody_of_not_reference ?_ []).symm
      intro key blanks same
      rw [same] at inter
      cases inter

structure Sound (t : Stretch) : Prop where
  opens : Opening.Fits t.scan.active.opening.toList (t.scan.offset = 0) t.scan.rest t.opening
  ends : Closing.Ends t.scan.active.closing.toList t.opening.rest t.closing.body t.closing.rest

theorem Sound.whole (sound : Sound t) : t.scan.rest = t.opening.lead ++
    (t.scan.active.opening.toList ++ t.closing.body ++ t.scan.active.closing.toList) ++
      t.closing.rest := by
  rw [sound.opens.whole, sound.ends.append]
  simp only [List.append_assoc]

theorem span_start (t : Stretch) : t.span.start = t.scan.offset + size t.opening.lead := rfl

theorem span_stop (t : Stretch) : t.span.stop = t.span.start + size
    (t.scan.active.opening.toList ++ t.closing.body ++ t.scan.active.closing.toList) := by
  simp only [span, Scan.spanOf, size_append]
  omega

theorem span_forward (t : Stretch) : t.span.start ≤ t.span.stop := by
  rw [span_stop]
  exact Nat.le_add_right _ _

theorem next_offset (t : Stretch) : t.next.offset = t.span.stop + size t.skipped := rfl

theorem Sound.next_rest (sound : Sound t) : ∃ taken, t.scan.rest = taken ++ t.next.rest ∧
    t.next.offset = t.scan.offset + size taken := by
  refine ⟨t.opening.lead ++ (t.scan.active.opening.toList ++ t.closing.body ++
    t.scan.active.closing.toList) ++ t.skipped, ?_, ?_⟩
  · rw [sound.whole, t.skipped_rest, List.append_assoc _ t.skipped]
  · rw [next_offset, span_stop, span_start]
    simp only [size_append]
    omega

theorem moves (t : Stretch) (extent : t.scan.active.HasExtent) :
    t.scan.offset < t.next.offset := by
  have stop := t.span_stop
  simp only [size_append] at stop
  rw [next_offset, stop, span_start]
  unfold Delimiters.HasExtent at extent
  omega

theorem next_active {P : Delimiters → Prop} (standard : P .standard)
    (changed : ∀ pair, pair.Words → P pair) {t : Stretch} (now : P t.scan.active) :
    P t.next.active :=
  activeAfter_invariant standard changed now t.tag_eq

theorem next_hasExtent {t : Stretch} (extent : t.scan.active.HasExtent) : t.next.active.HasExtent :=
  next_active Delimiters.standard_words.clear.hasExtent
    (fun _ words => words.clear.hasExtent) extent

theorem next_clear {t : Stretch} (clear : t.scan.active.Clear) : t.next.active.Clear :=
  next_active Delimiters.standard_words.clear (fun _ words => words.clear) clear

theorem next_words {t : Stretch} (words : t.scan.active.Words) : t.next.active.Words :=
  next_active Delimiters.standard_words (fun _ => id) words

end Stretch

namespace Scan

theorem start_eq_ok_iff : start? source pair = .ok s ↔
    pair.isUsable = true ∧ s = start source.toList pair := by
  unfold start?
  split
  · rename_i usable
    simp [usable, eq_comm]
  · rename_i unusable
    simp [unusable]

theorem start_standard (source : String) :
    start? source .standard = .ok (start source.toList .standard) :=
  start_eq_ok_iff.mpr ⟨Delimiters.standard_usable, rfl⟩

def stretch? (s : Scan) : Option Stretch :=
  if s.rest.isEmpty then none
  else
    match Opening.find? s.active.opening.toList (s.offset = 0) s.rest with
    | none => none
    | some o => (Closing.find? s.active.closing.toList o.rest).map fun c => ⟨s, o, c⟩

theorem stretch_sound (met : stretch? s = some t) :
    t.scan = s ∧ t.Sound ∧ s.round = .tagged t.kept t.tag t.next := by
  unfold stretch? at met
  split at met
  · cases met
  · rename_i full
    split at met
    · cases met
    · rename_i o opened
      obtain ⟨c, closed, rfl⟩ := Option.map_eq_some_iff.mp met
      refine ⟨rfl, ⟨Opening.find_fits opened, Closing.find_ends closed⟩, ?_⟩
      simp only [round, full, opened, closed]
      rfl

theorem round_of_none (ended : stretch? s = none) (text : List Char) (tag : Option Tag)
    (next : Scan) : round s ≠ .tagged text tag next := by
  intro tagged
  unfold round at tagged
  split at tagged
  · cases tagged
  · rename_i full
    split at tagged
    · cases tagged
    · rename_i o opened
      split at tagged
      · cases tagged
      · rename_i c closed
        have met : s.stretch? = some ⟨s, o, c⟩ := by
          rw [stretch?, if_neg full, opened]
          simp only [closed, Option.map_some]
        rw [ended] at met
        cases met

theorem stretch_of_round (tagged : round s = .tagged text tag next) :
    ∃ t, stretch? s = some t ∧ t.kept = text ∧ t.tag = tag ∧ t.next = next := by
  obtain ⟨t, met⟩ : ∃ t, stretch? s = some t :=
    Option.ne_none_iff_exists'.mp fun ended => round_of_none ended text tag next tagged
  have same := (stretch_sound met).2.2
  rw [tagged] at same
  cases same
  exact ⟨t, met, rfl, rfl, rfl⟩

theorem stretch_shorter (met : stretch? s = some t) (moved : s.offset < t.next.offset) :
    t.next.rest.length < s.rest.length :=
  round_shorter (stretch_sound met).2.2 moved

def stretches (s : Scan) : List Stretch :=
  match _ : s.stretch? with
  | none => []
  | some t => if _ : s.offset < t.next.offset then t :: t.next.stretches else [t]
termination_by s.rest.length
decreasing_by exact stretch_shorter ‹_› ‹_›

def last (s : Scan) : Scan :=
  match _ : s.stretch? with
  | none => s
  | some t => if _ : s.offset < t.next.offset then t.next.last else t.next
termination_by s.rest.length
decreasing_by exact stretch_shorter ‹_› ‹_›

theorem stretches_of_none (ended : stretch? s = none) : s.stretches = [] ∧ s.last = s := by
  unfold stretches last
  split
  · exact ⟨rfl, rfl⟩
  · rename_i met; rw [ended] at met; cases met

theorem stretches_of_some (met : stretch? s = some t) (extent : s.active.HasExtent) :
    s.stretches = t :: t.next.stretches ∧ s.last = t.next.last := by
  have moved : s.offset < t.next.offset := by
    obtain ⟨rfl, -⟩ := stretch_sound met
    exact t.moves extent
  rw [stretches, last]
  split
  · rename_i ended; rw [met] at ended; cases ended
  · rename_i u found
    rw [met] at found
    cases found
    simp only [moved, dite_true, and_self]

-- A scan goes on from tag to tag until none is left.
@[elab_as_elim]
theorem stretch_induction {motive : (s : Scan) → s.active.HasExtent → Prop}
    (ended : ∀ s extent, stretch? s = none → motive s extent)
    (step : ∀ s t extent (later : t.next.active.HasExtent), stretch? s = some t →
      motive t.next later → motive s extent)
    (s : Scan) (extent : s.active.HasExtent) : motive s extent := by
  cases met : s.stretch? with
  | none => exact ended s extent met
  | some t =>
    have same := (stretch_sound met).1
    have extent' : t.scan.active.HasExtent := same ▸ extent
    have moved : s.offset < t.next.offset := same ▸ t.moves extent'
    exact step s t extent (Stretch.next_hasExtent extent') met (stretch_induction ended step t.next _)
termination_by s.rest.length
decreasing_by exact stretch_shorter met moved

theorem itemsFrom_eq (done : List Item) (s : Scan) :
    s.itemsFrom done = done.reverse ++ s.itemsFrom [] := by
  rw [itemsFrom, itemsFrom]
  split
  · simp
  · simp
  · simp
  · rename_i text tag next tagged
    dsimp only
    split
    · rename_i moved
      rw [itemsFrom_eq, itemsFrom_eq ((yielded text tag).reverse ++ []) next]
      simp
    · simp
termination_by s.rest.length
decreasing_by all_goals exact round_shorter ‹_› ‹_›

def ending (s : Scan) : List Item :=
  match s.round with
  | .trailing text _ => [.ok (.text (String.ofList text))]
  | .unclosed offset _ => [.error (.unclosedTag offset)]
  | _ => []

theorem ending_cases (ended : stretch? s = none) : s.rest = [] ∧ s.ending = [] ∨
    s.rest ≠ [] ∧ ¬ s.active.opening.toList <:+: s.rest ∧
      s.ending = [.ok (.text (String.ofList s.rest))] ∨
    ∃ o, Opening.Fits s.active.opening.toList (s.offset = 0) s.rest o ∧
      ¬ s.active.closing.toList <:+: o.rest ∧
      s.ending = [.error (.unclosedTag (s.offset + size o.lead))] := by
  unfold stretch? at ended
  split at ended
  · rename_i empty
    refine Or.inl ⟨List.isEmpty_iff.mp empty, ?_⟩
    simp only [ending, round, empty, if_true]
  · rename_i full
    refine Or.inr ?_
    split at ended
    · rename_i missed
      refine Or.inl ⟨by simpa using full, Opening.find_eq_none missed, ?_⟩
      simp only [ending, round, full, missed, Bool.false_eq_true, if_false]
    · rename_i o opened
      have missed := Option.map_eq_none_iff.mp ended
      refine Or.inr ⟨o, Opening.find_fits opened, Closing.find_eq_none missed, ?_⟩
      simp only [ending, round, full, opened, missed, Bool.false_eq_true, if_false]

theorem itemsFrom_of_none (ended : stretch? s = none) : s.itemsFrom [] = s.ending := by
  rw [itemsFrom, ending]
  rcases found : s.round with _ | ⟨text, next⟩ | ⟨offset, next⟩ | ⟨text, tag, next⟩
  · rfl
  · rfl
  · rfl
  · exact absurd found (round_of_none ended text tag next)

theorem itemsFrom_of_some (met : stretch? s = some t) (extent : s.active.HasExtent) :
    s.itemsFrom [] = yielded t.kept t.tag ++ t.next.itemsFrom [] := by
  obtain ⟨rfl, -, tagged⟩ := stretch_sound met
  have moved := t.moves extent
  rw [itemsFrom]
  split
  · rename_i found; rw [tagged] at found; cases found
  · rename_i found; rw [tagged] at found; cases found
  · rename_i found; rw [tagged] at found; cases found
  · rename_i text tag next found
    rw [tagged] at found
    cases found
    simp only [moved, dite_true]
    rw [itemsFrom_eq]
    simp

theorem items_of_none (ended : stretch? s = none) (fresh : s.waiting = none) : s.items = s.ending := by
  rw [items, fresh]
  exact itemsFrom_of_none ended

theorem items_of_some (met : stretch? s = some t) (extent : s.active.HasExtent)
    (fresh : s.waiting = none) : s.items = yielded t.kept t.tag ++ t.next.items := by
  rw [items, fresh]
  exact itemsFrom_of_some met extent

theorem items_eq (s : Scan) (extent : s.active.HasExtent) (fresh : s.waiting = none) :
    s.items = s.stretches.flatMap (fun t => yielded t.kept t.tag) ++ s.last.ending := by
  induction s, extent using stretch_induction with
  | ended s extent ended =>
    rw [items_of_none ended fresh, (stretches_of_none ended).1, (stretches_of_none ended).2]
    rfl
  | step s t extent later met ih =>
    obtain ⟨first, last⟩ := stretches_of_some met extent
    rw [items_of_some met extent fresh, ih rfl, first, last]
    simp

end Scan
end Mustache
