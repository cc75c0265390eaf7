import Mustache.Proofs.Stretch

namespace Mustache
open Text

namespace Scan

inductive Reaches : Scan → List Stretch → Scan → Prop where
  | here : Reaches s [] s
  | tag (met : stretch? s = some t) (later : Reaches t.next ts reached) : Reaches s (t :: ts) reached

theorem Reaches.invariant {P : Scan → Prop} (kept : ∀ t : Stretch, t.Sound → P t.scan → P t.next)
    (path : Reaches s ts reached) (begins : P s) : P reached := by
  induction path with
  | here => exact begins
  | tag met later ih =>
    obtain ⟨rfl, sound, -⟩ := stretch_sound met
    exact ih (kept _ sound begins)

theorem Reaches.latest {P : Scan → Prop} (kept : ∀ t : Stretch, t.Sound → P t.scan → P t.next)
    (path : Reaches s ts reached) (begins : P s) : ts = [] ∧ reached = s ∨
      ∃ p, ts.getLast? = some p ∧ reached = p.next ∧ p.Sound ∧ P p.scan := by
  induction path with
  | here => exact Or.inl ⟨rfl, rfl⟩
  | @tag s t ts reached met later ih =>
    obtain ⟨rfl, sound, -⟩ := stretch_sound met
    rcases ih (kept t sound begins) with ⟨rfl, rfl⟩ | ⟨p, found, same, facts⟩
    · exact Or.inr ⟨t, rfl, rfl, sound, begins⟩
    · refine Or.inr ⟨p, ?_, same, facts⟩
      rw [List.getLast?_cons, found]
      rfl

theorem Reaches.offset_le (path : Reaches s ts reached) :
    s.offset ≤ reached.offset ∧ ∀ p ∈ ts, s.offset ≤ p.scan.offset ∧ p.next.offset ≤ reached.offset := by
  induction path with
  | here => simp
  | @tag s t ts reached met later ih =>
    obtain ⟨rfl, sound, -⟩ := stretch_sound met
    obtain ⟨taken, -, offset⟩ := sound.next_rest
    refine ⟨by omega, fun p member => ?_⟩
    rcases List.mem_cons.mp member with rfl | member
    · exact ⟨Nat.le_refl _, ih.1⟩
    · obtain ⟨first, bound⟩ := ih.2 p member
      omega

theorem Reaches.rest_eq (path : Reaches s ts reached) : ∃ taken,
    s.rest = taken ++ reached.rest ∧ reached.offset = s.offset + size taken := by
  induction path with
  | here => exact ⟨[], rfl, rfl⟩
  | tag met later ih =>
    obtain ⟨rfl, sound, -⟩ := stretch_sound met
    obtain ⟨first, parts, moved⟩ := sound.next_rest
    obtain ⟨rest, same, offset⟩ := ih
    exact ⟨first ++ rest, by rw [parts, same, List.append_assoc],
      by rw [offset, moved, size_append, Nat.add_assoc]⟩

def Upto (source : List Char) (s : Scan) : Prop :=
  ∃ ahead, source = ahead ++ s.rest ∧ size ahead = s.offset

theorem Upto.next (t : Stretch) (sound : t.Sound) (upto : Upto source t.scan) :
    Upto source t.next := by
  obtain ⟨ahead, rfl, reached⟩ := upto
  obtain ⟨taken, parts, offset⟩ := sound.next_rest
  exact ⟨ahead ++ taken, by rw [parts, List.append_assoc], by rw [size_append, reached, offset]⟩

theorem upto_start (source : List Char) (pair : Delimiters) : Upto source (start source pair) :=
  ⟨[], rfl, rfl⟩

theorem Reaches.stretches_eq (path : Reaches s ts reached) (extent : s.active.HasExtent)
    (ended : stretch? reached = none) : s.stretches = ts ∧ s.last = reached := by
  induction path with
  | here => exact stretches_of_none ended
  | @tag s t ts reached met later ih =>
    obtain ⟨rfl, -⟩ := stretch_sound met
    obtain ⟨first, last⟩ := stretches_of_some met extent
    obtain ⟨more, reaches⟩ := ih (Stretch.next_hasExtent extent) ended
    exact ⟨by rw [first, more], by rw [last, reaches]⟩

theorem reaches_of_split (extent : s.active.HasExtent) (split : s.stretches = earlier ++ later) :
    ∃ middle, Reaches s earlier middle ∧ middle.active.HasExtent ∧ middle.stretches = later ∧
      middle.last = s.last := by
  induction s, extent using stretch_induction generalizing earlier with
  | ended s extent ended =>
    rw [(stretches_of_none ended).1, eq_comm, List.append_eq_nil_iff] at split
    obtain ⟨rfl, rfl⟩ := split
    exact ⟨s, .here, extent, (stretches_of_none ended).1, rfl⟩
  | step s t extent extent' met ih =>
    obtain ⟨first, last⟩ := stretches_of_some met extent
    cases earlier with
    | nil => exact ⟨s, .here, extent, split, rfl⟩
    | cons u earlier =>
      rw [first, List.cons_append, List.cons.injEq] at split
      obtain ⟨rfl, split⟩ := split
      obtain ⟨middle, path, facts⟩ := ih split
      exact ⟨middle, .tag met path, by rw [last]; exact facts⟩

theorem reaches_tag (extent : s.active.HasExtent) (split : s.stretches = earlier ++ t :: later) :
    Reaches s earlier t.scan ∧ stretch? t.scan = some t ∧ t.scan.active.HasExtent ∧
      t.next.stretches = later ∧ t.next.last = s.last := by
  obtain ⟨middle, path, extent', rest, last⟩ := reaches_of_split extent split
  cases met : middle.stretch? with
  | none =>
    rw [(stretches_of_none met).1] at rest
    cases rest
  | some u =>
    obtain ⟨first, tail⟩ := stretches_of_some met extent'
    rw [first, List.cons.injEq] at rest
    obtain ⟨rfl, rest⟩ := rest
    obtain ⟨rfl, -⟩ := stretch_sound met
    exact ⟨path, met, extent', rest, tail.symm.trans last⟩

theorem reaches_of_stretches (extent : s.active.HasExtent)
    (split : s.stretches = earlier ++ t :: later) :
    Reaches s earlier t.scan ∧ t.Sound ∧ t.scan.active.HasExtent ∧ t.next.stretches = later ∧
      t.next.last = s.last := by
  obtain ⟨path, met, facts⟩ := reaches_tag extent split
  exact ⟨path, (stretch_sound met).2.1, facts⟩

theorem reaches_last {s : Scan} (extent : s.active.HasExtent) : Reaches s s.stretches s.last := by
  obtain ⟨middle, path, extent', none, last⟩ :=
    reaches_of_split extent (List.append_nil s.stretches).symm
  have ended : middle.stretch? = Option.none := by
    cases met : middle.stretch? with
    | none => rfl
    | some t =>
      rw [(stretches_of_some met extent').1] at none
      cases none
  rw [← last, (stretches_of_none ended).2]
  exact path

end Scan

-- A text that a scan hands out, and the byte at which it stands in the source.
structure Run where
  start : Nat
  text : List Char
deriving DecidableEq, Repr

namespace Run

def stop (run : Run) : Nat := run.start + size run.text

def Avoids (run : Run) (start stop : Nat) : Prop := run.stop ≤ start ∨ stop ≤ run.start

end Run

def Stretch.run (t : Stretch) : Run := ⟨t.scan.offset, t.kept⟩

namespace Scan
variable {s : Scan} {t : Stretch} {run : Run}

def lastRun (s : Scan) : List Run :=
  match s.round with
  | .trailing text _ => [⟨s.offset, text⟩]
  | _ => []

def runs (s : Scan) : List Run :=
  (s.stretches.map Stretch.run).filter (fun run => !run.text.isEmpty) ++ s.last.lastRun

theorem mem_runs : run ∈ runs s ↔
    (∃ t ∈ s.stretches, t.run = run ∧ run.text ≠ []) ∨ run ∈ s.last.lastRun := by
  simp only [runs, List.mem_append, List.mem_filter, List.mem_map, Bool.not_eq_true',
    List.isEmpty_eq_false_iff]
  constructor
  · rintro (⟨⟨t, member, rfl⟩, full⟩ | member)
    · exact Or.inl ⟨t, member, rfl, full⟩
    · exact Or.inr member
  · rintro (⟨t, member, rfl, full⟩ | member)
    · exact Or.inl ⟨⟨t, member, rfl⟩, full⟩
    · exact Or.inr member

theorem offset_le_of_mem (extent : s.active.HasExtent) (member : t ∈ s.stretches) :
    s.offset ≤ t.scan.offset := by
  obtain ⟨earlier, later, split⟩ := List.append_of_mem member
  exact (reaches_of_stretches extent split).1.offset_le.1

theorem offset_le_last (extent : s.active.HasExtent) : s.offset ≤ s.last.offset :=
  (reaches_last extent).offset_le.1

theorem run_stop_le (t : Stretch) : t.run.stop ≤ t.span.start := by
  rw [Stretch.span_start, t.kept_dropped, size_append]
  simp only [Run.stop, Stretch.run]
  omega

-- Each run stands before the text in front of a tag, is that text, or stands behind the tag and
-- what it took of its line.
theorem runs_around (extent : s.active.HasExtent) (split : s.stretches = earlier ++ t :: later)
    (member : run ∈ s.runs) :
    run.stop ≤ t.scan.offset ∨ run = t.run ∨ t.next.offset ≤ run.start := by
  obtain ⟨path, sound, extent', rest, last⟩ := reaches_of_stretches extent split
  rcases mem_runs.mp member with ⟨u, found, rfl, -⟩ | found
  · rw [split] at found
    rcases List.mem_append.mp found with found | found
    · have before := run_stop_le u
      have bound := (path.offset_le.2 u found).2
      rw [Stretch.next_offset, Stretch.span_stop] at bound
      exact Or.inl (by omega)
    · rcases List.mem_cons.mp found with rfl | found
      · exact Or.inr (Or.inl rfl)
      · rw [← rest] at found
        exact Or.inr (Or.inr (offset_le_of_mem (Stretch.next_hasExtent extent') found))
  · have bound := offset_le_last (Stretch.next_hasExtent extent')
    rw [last] at bound
    unfold lastRun at found
    split at found
    · rw [List.mem_singleton] at found
      subst found
      exact Or.inr (Or.inr bound)
    · cases found

theorem run_mem (split : s.stretches = earlier ++ t :: later) (full : t.kept ≠ []) :
    t.run ∈ s.runs :=
  mem_runs.mpr (Or.inl ⟨t, by rw [split]; simp, rfl, full⟩)

def textsOf (items : List Item) : List (List Char) :=
  items.filterMap fun
    | .ok (.text text) => some text.toList
    | _ => none

theorem textsOf_yielded (t : Stretch) :
    textsOf (yielded t.kept t.tag) = if t.kept.isEmpty then [] else [t.kept] := by
  have silent : textsOf (t.tag.map Except.ok).toList = [] := by
    cases found : t.tag with
    | none => rfl
    | some tag =>
      cases tag with
      | text run => exact absurd (t.tag_eq ▸ found) (Tag.ofBody_ne_text _ _ _ _ run)
      | _ => rfl
  unfold yielded textsOf at *
  rw [List.filterMap_append, silent, List.append_nil]
  split <;> simp

theorem textsOf_ending (s : Scan) : textsOf s.ending = s.lastRun.map Run.text := by
  unfold ending lastRun
  cases s.round <;> simp [textsOf]

theorem runs_texts (s : Scan) (extent : s.active.HasExtent) (fresh : s.waiting = none) :
    s.runs.map Run.text = textsOf s.items := by
  have texts : ∀ ts : List Stretch,
      ((ts.map Stretch.run).filter fun run => !run.text.isEmpty).map Run.text =
        textsOf (ts.flatMap fun t => yielded t.kept t.tag) := by
    intro ts
    induction ts with
    | nil => rfl
    | cons t ts ih =>
      have first := textsOf_yielded t
      unfold textsOf at first ih ⊢
      rw [List.flatMap_cons, List.filterMap_append, first, ← ih, List.map_cons, List.filter_cons]
      cases empty : t.kept.isEmpty <;> simp [Stretch.run, empty]
  have parts := texts s.stretches
  have tail := textsOf_ending s.last
  unfold textsOf at parts tail ⊢
  rw [items_eq s extent fresh, List.filterMap_append, ← parts, tail, runs, List.map_append]

end Scan
end Mustache
