import Mustache.Proofs.Course
import Mustache.Proofs.Lookup

namespace Mustache

namespace Value

-- What paths can lead to without a call, at every depth: the items of lists and the members of maps
-- and of records.
inductive Within (host : Host) (data : Value) : Value → Prop where
  | self : Within host data data
  | item (whole : Within host data (.list items)) (member : item ∈ items) : Within host data item
  | entry (whole : Within host data (.map entries)) (member : (key, value) ∈ entries) :
      Within host data value
  | field (whole : Within host data (.record r)) (member : host.member? r.id key = some value) :
      Within host data value

def Lambdaless (host : Host) (data : Value) : Prop :=
  ∀ value, Within host data value → ∀ lambda, value ≠ .lambda lambda

theorem Within.eq_of_leaf (within : Within host data value) (list : ∀ items, data ≠ .list items)
    (map : ∀ entries, data ≠ .map entries) (record : ∀ r, data ≠ .record r) : value = data := by
  induction within with
  | self => rfl
  | item whole member ih => exact absurd ih.symm (list _)
  | entry whole member ih => exact absurd ih.symm (map _)
  | field whole member ih => exact absurd ih.symm (record _)

inductive Part (host : Host) : Value → Value → Prop where
  | item (member : item ∈ items) : Part host (.list items) item
  | entry (member : (key, value) ∈ entries) : Part host (.map entries) value
  | field (member : host.member? r.id key = some value) : Part host (.record r) value

theorem Within.eq_or_part (within : Within host data value) :
    value = data ∨ ∃ part, Part host data part ∧ Within host part value := by
  have further {whole value : Value} (here : whole = data ∨ ∃ part, Part host data part ∧
      Within host part whole) (first : Part host whole value)
      (later : ∀ {part}, Within host part whole → Within host part value) :
      ∃ part, Part host data part ∧ Within host part value := by
    rcases here with rfl | ⟨part, direct, inside⟩
    · exact ⟨value, first, .self⟩
    · exact ⟨part, direct, later inside⟩
  induction within with
  | self => exact Or.inl rfl
  | item whole member ih => exact Or.inr (further ih (.item member) (Within.item · member))
  | entry whole member ih => exact Or.inr (further ih (.entry member) (Within.entry · member))
  | field whole member ih => exact Or.inr (further ih (.field member) (Within.field · member))

theorem lambdaless_of_parts (plain : ∀ lambda, data ≠ .lambda lambda)
    (parts : ∀ part, Part host data part → Lambdaless host part) : Lambdaless host data := by
  intro value within
  rcases within.eq_or_part with rfl | ⟨part, direct, inside⟩
  · exact plain
  · exact parts part direct value inside

theorem lambdaless_text (host : Host) (run : String) : Lambdaless host (.text run) := by
  intro value within
  rw [within.eq_of_leaf nofun nofun nofun]
  nofun

end Value

theorem Entries.mem_of_get {entries : Entries α} (found : get? key entries = some value) :
    (key, value) ∈ entries := by
  induction entries with
  | nil => cases found
  | cons entry rest ih =>
    obtain ⟨own, old⟩ := entry
    unfold get? at found
    split at found
    · rename_i same
      cases found
      rw [same]
      exact List.mem_cons_self
    · exact List.mem_cons_of_mem _ (ih found)

namespace Host
open Value
variable {host : Host} {data value : Value} {journal after : Journal}

theorem memberOf_within (within : Within host data value)
    (asked : host.memberOf value key journal = (some member, after)) : Within host data member := by
  unfold memberOf at asked
  split at asked
  · simp only [Prod.mk.injEq] at asked
    exact .entry within (Entries.mem_of_get asked.1)
  · simp only [Prod.mk.injEq] at asked
    exact .field within asked.1
  · simp at asked

theorem evaluate_plain (plain : ∀ lambda, value ≠ .lambda lambda) (raw : String) (journal : Journal) :
    host.evaluate raw value journal = (some ⟨value, false⟩, journal) := by
  unfold evaluate
  split
  · rename_i lambda
    exact absurd rfl (plain lambda)
  · rfl

theorem step_within (lambdaless : Lambdaless host data) (within : Within host data value)
    (raw other key : String) (journal : Journal) :
    host.step raw value key journal = host.step other value key journal ∧
      ∀ found after, host.step raw value key journal = (some found, after) →
        Within host data found.value ∧ found.fromLambda = false := by
  unfold step
  rcases met : host.memberOf value key journal with ⟨_ | member, later⟩
  · exact ⟨rfl, by simp⟩
  · have inside := memberOf_within within met
    have plain := lambdaless member inside
    simp only [evaluate_plain plain, Prod.mk.injEq, Option.some.injEq, true_and]
    rintro _ _ ⟨rfl, rfl⟩
    exact ⟨inside, rfl⟩

theorem search_within (lambdaless : Lambdaless host data) (raw other key : String)
    (within : ∀ frame ∈ frames, Within host data frame) (journal : Journal) :
    host.search raw key frames journal = host.search other key frames journal ∧
      ∀ found after, host.search raw key frames journal = (some found, after) →
        Within host data found.value ∧ found.fromLambda = false := by
  induction frames generalizing journal with
  | nil => exact ⟨rfl, by simp [search]⟩
  | cons frame outer ih =>
    obtain ⟨here, rest⟩ := List.forall_mem_cons.mp within
    obtain ⟨same, found⟩ := step_within lambdaless here raw other key journal
    unfold search
    rw [← same]
    rcases met : host.step raw frame key journal with ⟨_ | member, later⟩
    · exact ih rest later
    · refine ⟨rfl, ?_⟩
      rintro _ _ ⟨⟩
      exact found member later met

theorem toResolved_within {found : Found} (plain : found.fromLambda = false) (scope : List Value) :
    found.toResolved scope = .value found.value := by
  unfold Found.toResolved
  split
  · rename_i text shown
    rw [plain, shown]
    rfl
  · rfl

theorem descend_within (lambdaless : Lambdaless host data) (raw other : String) {found : Found}
    (within : Within host data found.value) (plain : found.fromLambda = false)
    (scope : List Value) (keys : List String) (journal : Journal) :
    host.descend raw found scope keys journal = host.descend other found scope keys journal ∧
      ∀ resolved after, host.descend raw found scope keys journal = (some resolved, after) →
        ∃ value, resolved = .value value ∧ Within host data value := by
  induction keys generalizing found scope journal with
  | nil =>
    refine ⟨rfl, ?_⟩
    rintro _ _ ⟨⟩
    exact ⟨found.value, toResolved_within plain _, within⟩
  | cons key keys ih =>
    obtain ⟨same, next⟩ := step_within lambdaless within raw other key journal
    unfold descend
    rw [← same]
    rcases met : host.step raw found.value key journal with ⟨_ | member, later⟩
    · exact ⟨rfl, by simp⟩
    · obtain ⟨inside, plain'⟩ := next member later met
      exact ih inside plain' _ later

end Host

def Frames.Inside (host : Host) (data : Value) (frames : Frames) : Prop :=
  ∀ frame ∈ frames.toList, Value.Within host data frame

namespace Frames.Inside
open Value
variable {host : Host} {data : Value} {frames : Frames}

theorem ofRoot : Frames.Inside host data (.ofRoot data) := by
  intro frame member
  rw [List.mem_singleton.mp member]
  exact .self

theorem push (within : Frames.Inside host data frames) (inside : Within host data item) :
    Frames.Inside host data (frames.push item) :=
  List.forall_mem_cons.mpr ⟨inside, within⟩

theorem pop (within : Frames.Inside host data frames) : Frames.Inside host data frames.pop := by
  intro frame member
  refine within frame ?_
  rcases List.mem_append.mp member with member | member
  · exact List.mem_append_left _ (List.mem_of_mem_tail member)
  · exact List.mem_append_right _ member

theorem current (within : Frames.Inside host data frames) : Within host data frames.current := by
  obtain ⟨inner, root⟩ := frames
  cases inner with
  | nil => exact within root (by simp [toList])
  | cons frame inner => exact within frame (by simp [toList])

theorem resolve (within : Frames.Inside host data frames) (lambdaless : Lambdaless host data)
    (raw other path : String) (journal : Journal) :
    host.resolve frames path raw journal = host.resolve frames path other journal ∧
      ∀ resolved after, host.resolve frames path raw journal = (some resolved, after) →
        ∃ value, resolved = .value value ∧ Within host data value := by
  unfold Host.resolve
  split
  · have plain := lambdaless _ within.current
    rw [Host.evaluate_plain plain, Host.evaluate_plain plain]
    refine ⟨rfl, ?_⟩
    rintro _ _ ⟨⟩
    exact ⟨_, Host.toResolved_within rfl _, within.current⟩
  · split
    · exact ⟨rfl, by simp⟩
    · rename_i key keys _
      obtain ⟨same, found⟩ := Host.search_within lambdaless raw other key within journal
      rw [← same]
      rcases met : host.search raw key frames.toList journal with ⟨_ | first, later⟩
      · exact ⟨rfl, by simp⟩
      · obtain ⟨inside, plain⟩ := found first later met
        exact Host.descend_within lambdaless raw other inside plain [] keys later

end Frames.Inside

theorem Passes.each_within {host : Host} {data value : Value}
    (within : Value.Within host data value) (passes : Passes.of value = .each items) :
    ∀ item ∈ items, Value.Within host data item := by
  intro item member
  unfold Passes.of at passes
  split at passes
  all_goals cases passes
  · exact .item within member
  · rw [List.mem_singleton.mp member]
    exact within

namespace Setting
variable {s : Setting} {data : Value}

theorem lookUp_inside (lambdaless : Value.Lambdaless s.host data)
    (inside : w.frames.Inside s.host data) (looked : s.lookUp w key raw = (some found, middle)) :
    ∃ value, found = .value value ∧ Value.Within s.host data value :=
  (inside.resolve lambdaless raw raw key w.journal).2 found middle.journal (lookUp_journal looked).1

theorem keeps_inside (lambdaless : Value.Lambdaless s.host data) :
    s.Keeps (fun _ => True) (Value.Within s.host data) (fun _ _ => False)
      (fun w => w.frames.Inside s.host data) where
  inner _ _ _ := trivial
  partials _ _ _ := trivial
  looks inside looked := by
    rw [(lookUp_journal looked).2]
    exact inside
  finds inside looked := by
    obtain ⟨value, same, within⟩ := lookUp_inside lambdaless inside looked
    cases same
    exact within
  sends inside looked := by
    obtain ⟨value, same, -⟩ := lookUp_inside lambdaless inside looked
    cases same
  each within passes := Passes.each_within within passes
  pushes within inside := inside.push within
  pops inside := inside.pop
  refers _ inside := inside
  returns _ inside := inside
  texts _ inside := inside
  shows _ _ inside := inside
  reads := False.elim
  enters := False.elim
  leaves inside _ := inside
  expands := False.elim
  replaces := False.elim

-- What a node keeps of the indent and of what was written, where no text comes from a lambda.
structure Writes (s : Setting) (Good : Node → Prop) (Fit : Value → Prop)
    (Holds : String → String → Prop) : Prop where
  inner : Good (.block inverted key children raw pair) → ∀ node ∈ children, Good node
  partials : s.partials.get? key = some nodes → ∀ node ∈ nodes, Good node
  refers : Good (.reference key more) → Holds indent out → Holds (indent ++ more) out
  returns : Holds indent out → Holds within later → Holds indent later
  texts : Good (.text run) → Holds indent out → Holds indent (out ++ Indent.apply indent run)
  shows : Good (.interpolation key escaped) → Fit value → Holds indent out →
    Holds indent
      (out ++ indent ++ if escaped then s.options.escape.apply value.toText else value.toText)

theorem Writes.keeps {Holds : String → String → Prop}
    (writes : s.Writes Good (Value.Within s.host data) Holds)
    (lambdaless : Value.Lambdaless s.host data) :
    s.Keeps Good (Value.Within s.host data) (fun _ _ => False)
      (fun w => w.frames.Inside s.host data ∧ Holds w.indent w.out) where
  inner := writes.inner
  partials := writes.partials
  looks holds looked := by
    rw [(lookUp_journal looked).2]
    exact holds
  finds holds looked := (keeps_inside lambdaless).finds holds.1 looked
  sends holds looked := (keeps_inside lambdaless).sends holds.1 looked
  each within passes := Passes.each_within within passes
  pushes within holds := ⟨holds.1.push within, holds.2⟩
  pops holds := ⟨holds.1.pop, holds.2⟩
  refers good holds := ⟨holds.1, writes.refers good holds.2⟩
  returns outer inner := ⟨inner.1, writes.returns outer.2 inner.2⟩
  texts good holds := ⟨holds.1, writes.texts good holds.2⟩
  shows good within holds := ⟨holds.1, writes.shows good within holds.2⟩
  reads := False.elim
  enters := False.elim
  leaves holds _ := holds
  expands := False.elim
  replaces := False.elim

end Setting
end Mustache
