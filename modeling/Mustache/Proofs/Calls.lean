import Mustache.Proofs.Stretch

namespace Mustache
open Text

namespace Scan

-- What one call of `next?` does: it hands out the tag that waits, or it goes on from tag to tag until
-- a text, a tag or the end of the source gives it something to hand out.
inductive Hands : Scan → Item → Scan → Prop where
  | waiting (held : s.waiting = some tag) : Hands s (.ok tag) { s with waiting := none }
  | ending (fresh : s.waiting = none) (ended : stretch? s = none) (left : s.ending = [item]) :
      Hands s item s.atEnd
  | text (fresh : s.waiting = none) (met : stretch? s = some t) (full : t.kept.isEmpty = false) :
      Hands s (.ok (.text (String.ofList t.kept))) { t.next with waiting := t.tag }
  | tag (fresh : s.waiting = none) (met : stretch? s = some t) (empty : t.kept.isEmpty = true)
      (found : t.tag = some tag) : Hands s (.ok tag) t.next
  | silent (fresh : s.waiting = none) (met : stretch? s = some t) (empty : t.kept.isEmpty = true)
      (found : t.tag = none) (later : Hands t.next item next) : Hands s item next

theorem round_ends (s : Scan) : (∀ text next, s.round = .trailing text next → next = s.atEnd) ∧
    ∀ offset next, s.round = .unclosed offset next → next = s.atEnd := by
  unfold round
  split
  · exact ⟨nofun, nofun⟩
  · split
    · exact ⟨fun _ _ same => by cases same; rfl, nofun⟩
    · split
      · exact ⟨nofun, fun _ _ same => by cases same; rfl⟩
      · exact ⟨nofun, nofun⟩

theorem next_of_none (ended : stretch? s = none) (fresh : s.waiting = none) :
    s.next? = s.ending.head?.map fun item => (item, s.atEnd) := by
  rw [next?]
  simp only [fresh]
  split
  · rename_i found
    simp only [Scan.ending, found, List.head?_nil, Option.map_none]
  · rename_i text after found
    rw [s.round_ends.1 text after found]
    simp only [Scan.ending, found, List.head?_cons, Option.map_some]
  · rename_i offset after found
    rw [s.round_ends.2 offset after found]
    simp only [Scan.ending, found, List.head?_cons, Option.map_some]
  · rename_i text tag after found
    exact absurd found (round_of_none ended text tag after)

theorem next_of_some (met : stretch? s = some t) (extent : s.active.HasExtent)
    (fresh : s.waiting = none) : s.next? =
      if t.kept.isEmpty then
        match t.tag with
        | some tag => some (.ok tag, t.next)
        | none => t.next.next?
      else some (.ok (.text (String.ofList t.kept)), { t.next with waiting := t.tag }) := by
  obtain ⟨rfl, -, tagged⟩ := stretch_sound met
  have moved := t.moves extent
  rw [next?]
  simp only [fresh]
  split
  · rename_i found; rw [tagged] at found; cases found
  · rename_i found; rw [tagged] at found; cases found
  · rename_i found; rw [tagged] at found; cases found
  · rename_i text tag after found
    rw [tagged] at found
    cases found
    split
    · rename_i full _
      simp only [full, Bool.false_eq_true, if_false]
    · rename_i empty own _
      simp only [empty, if_true, own]
    · rename_i empty own _
      simp only [empty, if_true, own, moved, dite_true]

theorem hands_of_fresh (s : Scan) (extent : s.active.HasExtent) (fresh : s.waiting = none)
    (called : s.next? = some (item, next)) : Hands s item next := by
  induction s, extent using stretch_induction with
  | ended s extent ended =>
    rw [next_of_none ended fresh, Option.map_eq_some_iff] at called
    obtain ⟨only, first, same⟩ := called
    cases same
    refine .ending fresh ended ?_
    unfold Scan.ending at first ⊢
    split at first <;> cases first <;> rfl
  | step s t extent later met ih =>
    rw [next_of_some met extent fresh] at called
    split at called
    · split at called
      · cases called
        exact .tag fresh met ‹_› ‹_›
      · exact .silent fresh met ‹_› ‹_› (ih rfl called)
    · cases called
      exact .text fresh met (by simpa using ‹¬ t.kept.isEmpty = true›)

theorem hands_of_next (s : Scan) (extent : s.active.HasExtent)
    (called : s.next? = some (item, next)) : Hands s item next := by
  cases held : s.waiting with
  | none => exact hands_of_fresh s extent held called
  | some tag =>
    rw [next?] at called
    simp only [held] at called
    cases called
    exact .waiting held

theorem stretch_waiting (s : Scan) (waiting : Option Tag) :
    stretch? { s with waiting := waiting } =
      s.stretch?.map fun t => { t with scan := { s with waiting := waiting } } := by
  unfold stretch?
  dsimp only
  split
  · rfl
  · cases Opening.find? s.active.opening.toList (s.offset = 0) s.rest with
    | none => rfl
    | some o =>
      dsimp only
      cases Closing.find? s.active.closing.toList o.rest <;> rfl

theorem ending_waiting (s : Scan) (waiting : Option Tag) :
    ending { s with waiting := waiting } = s.ending := by
  unfold ending round
  dsimp only
  cases s.rest.isEmpty with
  | true => rfl
  | false =>
    cases Opening.find? s.active.opening.toList (s.offset = 0) s.rest with
    | none => rfl
    | some o =>
      dsimp only
      cases Closing.find? s.active.closing.toList o.rest <;> rfl

theorem itemsFrom_waiting (s : Scan) (extent : s.active.HasExtent) (waiting : Option Tag) :
    itemsFrom [] { s with waiting := waiting } = s.itemsFrom [] := by
  have same := s.stretch_waiting waiting
  cases met : s.stretch? with
  | none =>
    rw [met] at same
    rw [itemsFrom_of_none same, itemsFrom_of_none met, s.ending_waiting]
  | some t =>
    rw [met] at same
    rw [itemsFrom_of_some same extent, itemsFrom_of_some met extent]
    obtain ⟨rfl, -⟩ := stretch_sound met
    rfl

theorem items_waiting (s : Scan) (extent : s.active.HasExtent) (waiting : Option Tag) :
    { s with waiting := waiting }.items = (waiting.map Except.ok).toList ++ s.itemsFrom [] := by
  rw [items, itemsFrom_eq, s.itemsFrom_waiting extent]
  cases waiting <;> rfl

theorem items_atEnd (s : Scan) (fresh : s.waiting = none) : s.atEnd.items = [] := by
  have ended : stretch? s.atEnd = none := rfl
  rw [items_of_none ended fresh]
  rfl

theorem Hands.items_eq (hands : Hands s item next) (extent : s.active.HasExtent) :
    next.active.HasExtent ∧ s.items = item :: next.items := by
  induction hands with
  | @waiting tag s held =>
    have all : s.items = _ := s.items_waiting extent s.waiting
    rw [held] at all
    rw [all, s.items_waiting extent none]
    exact ⟨extent, rfl⟩
  | ending fresh ended left =>
    rw [items_of_none ended fresh, left, items_atEnd _ fresh]
    exact ⟨extent, rfl⟩
  | @text s t fresh met full =>
    have later := Stretch.next_hasExtent ((stretch_sound met).1 ▸ extent)
    refine ⟨later, ?_⟩
    rw [items_of_some met extent fresh, t.next.items_waiting later t.tag,
      t.next.items_waiting later t.next.waiting, yielded, full]
    rfl
  | @tag s t tag fresh met empty found =>
    refine ⟨Stretch.next_hasExtent ((stretch_sound met).1 ▸ extent), ?_⟩
    rw [items_of_some met extent fresh, yielded, empty, found]
    rfl
  | @silent s t item next fresh met empty found later ih =>
    obtain ⟨goesOn, rest⟩ := ih (Stretch.next_hasExtent ((stretch_sound met).1 ▸ extent))
    refine ⟨goesOn, ?_⟩
    rw [items_of_some met extent fresh, yielded, empty, found]
    exact rest

inductive Calls : Scan → List Item → Scan → Prop where
  | none : Calls s [] s
  | next (called : s.next? = some (item, next)) (later : Calls next taken reached) :
      Calls s (item :: taken) reached

theorem Calls.items_eq (calls : Calls s taken reached) (extent : s.active.HasExtent) :
    reached.active.HasExtent ∧ s.items = taken ++ reached.items := by
  induction calls with
  | none => exact ⟨extent, rfl⟩
  | next called later ih =>
    obtain ⟨goesOn, first⟩ := (hands_of_next _ extent called).items_eq extent
    obtain ⟨extent', rest⟩ := ih goesOn
    exact ⟨extent', by rw [first, rest]; rfl⟩

end Scan
end Mustache
