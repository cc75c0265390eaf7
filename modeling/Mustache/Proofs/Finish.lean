import Mustache.Proofs.Calls
import Mustache.Proofs.Slices

namespace Mustache
open Text

namespace Scan
variable {s : Scan} {source : List Char}

structure Within (source : List Char) (s : Scan) : Prop where
  upto : Upto source s
  extent : s.active.HasExtent

theorem Within.left (within : Within source s) : skip? s.offset source = some s.rest :=
  skip_eq_some_iff.mpr within.upto

theorem Within.next (t : Stretch) (sound : t.Sound) (within : Within source t.scan) :
    Within source t.next :=
  ⟨Upto.next t sound within.upto, Stretch.next_hasExtent within.extent⟩

theorem Within.atEnd (within : Within source s) : Within source s.atEnd := by
  obtain ⟨ahead, whole, reached⟩ := within.upto
  refine ⟨⟨ahead ++ s.rest, by rw [whole]; exact (List.append_nil _).symm, ?_⟩, within.extent⟩
  rw [size_append, reached]
  rfl

theorem Hands.within (hands : Hands s item next) (within : Within source s) : Within source next := by
  induction hands with
  | waiting held => exact ⟨within.upto, within.extent⟩
  | ending fresh ended left => exact within.atEnd
  | text fresh met full =>
    obtain ⟨rfl, sound, -⟩ := stretch_sound met
    have behind := within.next _ sound
    exact ⟨behind.upto, behind.extent⟩
  | tag fresh met empty found =>
    obtain ⟨rfl, sound, -⟩ := stretch_sound met
    exact within.next _ sound
  | silent fresh met empty found later ih =>
    obtain ⟨rfl, sound, -⟩ := stretch_sound met
    exact ih (within.next _ sound)

theorem Calls.within (calls : Calls s taken reached) (within : Within source s) :
    Within source reached := by
  induction calls with
  | none => exact within
  | next called later ih => exact ih ((hands_of_next _ within.extent called).within within)

-- What one round of a scan does. Where it comes upon a tag it moves forward, and without anything to
-- hand out the call goes on behind the tag. All that it takes lies in the source.
structure Advances (source : List Char) (s : Scan) : Prop where
  left : skip? s.offset source = some s.rest
  tagged : ∀ text tag next, s.round = .tagged text tag next →
    s.offset < next.offset ∧ next.offset ≤ size source ∧
      ∃ t : Stretch, t.scan = s ∧ t.kept = text ∧ t.tag = tag ∧ t.next = next ∧ t.Sliced source
  silent : ∀ next, s.waiting = none → s.round = .tagged [] none next → s.next? = next.next?
  trailing : ∀ text next, s.round = .trailing text next → text ≠ [] ∧
    slice? source s.offset (size source) = some text ∧ next.offset = size source
  unclosed : ∀ offset next, s.round = .unclosed offset next → s.offset ≤ offset ∧
    slice? source offset (offset + size s.active.opening.toList) = some s.active.opening.toList

theorem unclosed_opening (unclosed : s.round = .unclosed stands next) :
    ∃ o : Opening, s.rest = o.lead ++ s.active.opening.toList ++ o.rest ∧
      stands = s.offset + size o.lead := by
  unfold round at unclosed
  split at unclosed
  · cases unclosed
  · split at unclosed
    · cases unclosed
    · rename_i o opened
      split at unclosed
      · cases unclosed
        exact ⟨o, Opening.find_append opened, rfl⟩
      · cases unclosed

theorem round_of_nil (empty : s.rest = []) : s.round = .over := by simp [round, empty]

theorem Within.advances (within : Within source s) : s.Advances source := by
  refine ⟨within.left, fun text tag next tagged => ?_, fun next fresh tagged => ?_,
    fun text next trailing => ?_, fun stands next unclosed => ?_⟩
  · obtain ⟨t, met, rfl, rfl, rfl⟩ := stretch_of_round tagged
    obtain ⟨rfl, sound, -⟩ := stretch_sound met
    have sliced := sound.sliced within.upto
    exact ⟨t.moves within.extent, sliced.bounded, t, rfl, rfl, rfl, rfl, sliced⟩
  · obtain ⟨t, met, empty, nothing, rfl⟩ := stretch_of_round tagged
    rw [next_of_some met within.extent fresh, empty, nothing]
    rfl
  · obtain ⟨slice, behind⟩ := slice_of_skip (within.left.trans (by rw [List.append_nil]))
    obtain ⟨before, whole, reached⟩ := skip_eq_some_iff.mp behind
    have ended : size source = s.offset + size s.rest := by rw [whole, List.append_nil, reached]
    have same := trailing_eq trailing
    subst same
    refine ⟨fun empty => ?_, ended ▸ slice, ?_⟩
    · rw [round_of_nil empty] at trailing
      cases trailing
    · rw [s.round_ends.1 _ next trailing, ended]
      rfl
  · obtain ⟨o, parts, rfl⟩ := unclosed_opening unclosed
    have left := within.left
    rw [parts, List.append_assoc] at left
    exact ⟨Nat.le_add_right _ _, (slice_of_skip (slice_of_skip left).2).1⟩

theorem yielded_length (text : List Char) (tag : Option Tag) :
    (yielded text tag).length ≤ text.length + 1 := by
  cases text <;> cases tag <;> simp [yielded]

theorem ending_length (s : Scan) : s.ending.length ≤ size s.rest := by
  cases full : s.rest with
  | nil => simp [ending, round_of_nil full]
  | cons c rest =>
    have positive := c.utf8Size_pos
    rw [size_cons]
    unfold ending
    split <;> simp only [List.length_cons, List.length_nil] <;> omega

theorem items_length (s : Scan) (extent : s.active.HasExtent) (fresh : s.waiting = none) :
    s.items.length ≤ size s.rest := by
  induction s, extent using stretch_induction with
  | ended s extent ended =>
    rw [items_of_none ended fresh]
    exact s.ending_length
  | step s t extent later met ih =>
    rw [items_of_some met extent fresh, List.length_append]
    obtain ⟨rfl, sound, -⟩ := stretch_sound met
    have rest := ih rfl
    have first := yielded_length t.kept t.tag
    have text := length_le_size t.kept
    have whole := congrArg size sound.whole
    rw [t.kept_dropped, t.skipped_rest] at whole
    simp only [size_append] at whole
    unfold Delimiters.HasExtent at extent
    omega

-- A scan that has nothing to hand out any more: the tags that it still comes upon hand out nothing, a
-- call leaves it at the end of the source, and there every further call says the same.
structure Spent (source : List Char) (s : Scan) : Prop where
  fresh : s.waiting = none
  silent : ∀ t ∈ s.stretches, t.kept = [] ∧ t.tag = none
  ended : s.last.rest = [] ∧ s.last.offset = size source
  again : s.last.waiting = none ∧ s.last.next? = none

theorem fresh_of_none (called : s.next? = none) : s.waiting = none := by
  cases held : s.waiting with
  | none => rfl
  | some tag =>
    rw [next?] at called
    simp only [held] at called
    cases called

theorem silent_of_none (extent : s.active.HasExtent) (called : s.next? = none) :
    (∀ t ∈ s.stretches, t.kept = [] ∧ t.tag = none) ∧ s.last.rest = [] := by
  have fresh := fresh_of_none called
  induction s, extent using stretch_induction with
  | ended s extent ended =>
    obtain ⟨none, last⟩ := stretches_of_none ended
    rw [next_of_none ended fresh, Option.map_eq_none_iff, List.head?_eq_none_iff] at called
    rw [none, last]
    refine ⟨nofun, ?_⟩
    rcases ending_cases ended with ⟨empty, -⟩ | ⟨-, -, only⟩ | ⟨o, -, -, only⟩
    · exact empty
    · rw [only] at called
      cases called
    · rw [only] at called
      cases called
  | step s t extent later met ih =>
    obtain ⟨first, last⟩ := stretches_of_some met extent
    rw [next_of_some met extent fresh] at called
    rw [first, last]
    split at called
    · rename_i empty
      split at called
      · cases called
      · obtain ⟨silent, ended⟩ := ih called rfl
        exact ⟨List.forall_mem_cons.mpr ⟨⟨List.isEmpty_iff.mp empty, ‹_›⟩, silent⟩, ended⟩
    · cases called

theorem next_of_nil (fresh : s.waiting = none) (empty : s.rest = []) : s.next? = none := by
  have ended : stretch? s = none := by simp [stretch?, empty]
  rw [next_of_none ended fresh]
  simp [ending, round_of_nil empty]

theorem Within.spent (within : Within source s) (called : s.next? = none) : s.Spent source := by
  have fresh := fresh_of_none called
  obtain ⟨silent, empty⟩ := silent_of_none within.extent called
  have path := reaches_last within.extent
  have waits : s.last.waiting = none :=
    path.invariant (P := fun s => s.waiting = none) (fun _ _ _ => rfl) fresh
  obtain ⟨before, whole, reached⟩ := (path.invariant Within.next within).upto
  refine ⟨fresh, silent, ⟨empty, ?_⟩, waits, next_of_nil waits empty⟩
  rw [whole, empty, List.append_nil, reached]

theorem next_eq_none_iff (extent : s.active.HasExtent) : s.next? = none ↔ s.items = [] := by
  constructor
  · intro called
    obtain ⟨silent, empty⟩ := silent_of_none extent called
    have none : s.stretches.flatMap (fun t => yielded t.kept t.tag) = [] :=
      List.flatMap_eq_nil_iff.mpr fun t member => by
        obtain ⟨kept, tag⟩ := silent t member
        rw [kept, tag]
        rfl
    rw [items_eq s extent (fresh_of_none called), none, ending, round_of_nil empty]
    rfl
  · intro nothing
    cases called : s.next? with
    | none => rfl
    | some pair =>
      obtain ⟨item, next⟩ := pair
      rw [((hands_of_next s extent called).items_eq extent).2] at nothing
      cases nothing

theorem calls_items (s : Scan) (extent : s.active.HasExtent) :
    ∃ final, Calls s s.items final ∧ final.next? = none := by
  generalize all : s.items = items
  induction items generalizing s with
  | nil => exact ⟨s, .none, (next_eq_none_iff extent).mpr all⟩
  | cons item items ih =>
    cases called : s.next? with
    | none =>
      rw [(next_eq_none_iff extent).mp called] at all
      cases all
    | some pair =>
      obtain ⟨first, next⟩ := pair
      obtain ⟨goesOn, same⟩ := (hands_of_next s extent called).items_eq extent
      rw [same, List.cons.injEq] at all
      obtain ⟨rfl, rest⟩ := all
      obtain ⟨final, calls, ended⟩ := ih next goesOn rest
      exact ⟨final, .next called calls, ended⟩

theorem items_error_last (extent : s.active.HasExtent) (fresh : s.waiting = none)
    (failed : .error fault ∈ s.items) : ∃ earlier, s.items = earlier ++ [.error fault] ∧ Clean earlier := by
  have clean := Clean.itemsOf s.stretches
  have parts : s.items = itemsOf s.stretches ++ s.last.ending := items_eq s extent fresh
  rw [parts] at failed ⊢
  rcases List.mem_append.mp failed with member | member
  · obtain ⟨tag, same⟩ := clean _ member
    cases same
  · unfold ending at member ⊢
    split at member
    · simp at member
    · cases List.mem_singleton.mp member
      exact ⟨_, rfl, clean⟩
    · cases member

theorem calls_error_last (calls : Calls s taken reached) (extent : s.active.HasExtent)
    (fresh : s.waiting = none) (failed : .error fault ∈ taken) :
    reached.next? = none ∧ ∃ earlier, taken = earlier ++ [.error fault] ∧ Clean earlier := by
  obtain ⟨extent', all⟩ := calls.items_eq extent
  have member : .error fault ∈ s.items := all ▸ List.mem_append_left _ failed
  obtain ⟨earlier, whole, clean⟩ := items_error_last extent fresh member
  rw [next_eq_none_iff extent']
  rw [all] at whole
  rcases List.eq_nil_or_concat reached.items with none | ⟨more, item, some⟩
  · rw [none, List.append_nil] at whole
    exact ⟨none, earlier, whole, clean⟩
  · rw [some, List.concat_eq_append, ← List.append_assoc] at whole
    obtain ⟨tag, same⟩ := clean _ ((List.append_inj_left' whole rfl) ▸ List.mem_append_left more failed)
    cases same

-- Calling again and again hands out at most as many items as the source has bytes and comes to the end.
-- An error is the last item, all before it are tags, and every later call says that the scan is at its
-- end. Each round on the way moves forward within the source, and all that it takes are slices of it.
theorem calls_finish {source : String} (begun : start? source pair = .ok s) (extent : pair.HasExtent) :
    s.items.length ≤ source.utf8ByteSize ∧
    (∃ final, Calls s s.items final ∧ final.next? = none) ∧
    ∀ taken reached, Calls s taken reached →
      taken.length ≤ source.utf8ByteSize ∧
      (reached.next? = none ↔ taken = s.items) ∧
      (reached.next? = none → reached.Spent source.toList) ∧
      (∀ fault, .error fault ∈ taken → reached.next? = none ∧
        ∃ earlier, taken = earlier ++ [.error fault] ∧ Clean earlier) ∧
      ∀ ts r, Reaches reached ts r → r.Advances source.toList := by
  obtain ⟨-, rfl⟩ := start_eq_ok_iff.mp begun
  have short := items_length (start source.toList pair) extent rfl
  have bytes : size (start source.toList pair).rest = source.utf8ByteSize := size_toList source
  rw [bytes] at short
  have begins : Within source.toList (start source.toList pair) := ⟨upto_start _ pair, extent⟩
  refine ⟨short, calls_items _ extent, fun taken reached calls => ?_⟩
  obtain ⟨extent', all⟩ := calls.items_eq extent
  have within := calls.within begins
  refine ⟨?_, ?_, within.spent, fun fault failed => calls_error_last calls extent rfl failed,
    fun ts r path => (path.invariant Within.next within).advances⟩
  · rw [all, List.length_append] at short
    omega
  · rw [next_eq_none_iff extent', all, List.self_eq_append_right]

end Scan

namespace Guillemets

def source : String := "ü»!ö»x"

def pair : Delimiters := ⟨"", "»"⟩

def handed : List Item := [.ok (.interpolation "ü" true), .error (.unclosedTag 9)]

end Guillemets

open Guillemets in
theorem Scan.calls_finish_guillemets : ∃ s, start? source pair = .ok s ∧ pair.HasExtent ∧
    s.items = handed ∧ s.items.length ≤ source.utf8ByteSize ∧ s.Advances source.toList ∧
    ∃ final, Calls s handed final ∧ final.next? = none ∧ final.Spent source.toList ∧
      ∃ earlier, handed = earlier ++ [.error (.unclosedTag 9)] ∧ Clean earlier := by
  have begun : start? source pair = .ok (start source.toList pair) :=
    start_eq_ok_iff.mpr ⟨by decide +kernel, rfl⟩
  have extent : pair.HasExtent := by unfold Delimiters.HasExtent; decide
  have all : (start source.toList pair).items = handed := by decide +kernel
  obtain ⟨short, ⟨final, calls, ended⟩, each⟩ := calls_finish begun extent
  obtain ⟨-, -, -, -, rounds⟩ := each [] _ .none
  obtain ⟨-, -, spent, errors, -⟩ := each _ final calls
  rw [all] at calls errors
  have failed : .error (.unclosedTag 9) ∈ handed := by simp [handed]
  exact ⟨_, begun, extent, all, short, rounds [] _ .here, final, calls, ended, spent ended,
    (errors _ failed).2⟩

end Mustache
