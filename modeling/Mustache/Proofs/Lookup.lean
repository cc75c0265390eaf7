import Mustache.Context

namespace Mustache

namespace Host
variable {host : Host} {journal after : Journal}

theorem memberOf_grows (host : Host) (value : Value) (key : String) (journal : Journal) :
    journal <:+ (host.memberOf value key journal).2 := by
  unfold memberOf
  split
  · exact List.suffix_refl _
  · exact List.suffix_cons _ _
  · exact List.suffix_refl _

theorem evaluate_grows (host : Host) (raw : String) (value : Value) (journal : Journal) :
    journal <:+ (host.evaluate raw value journal).2 := by
  unfold evaluate
  split
  · rename_i lambda
    have asked : (host.call lambda raw journal).2 = .called lambda raw :: journal := rfl
    rcases answer : host.call lambda raw journal with ⟨_ | own, later⟩
    all_goals
      rw [answer] at asked
      obtain rfl : later = .called lambda raw :: journal := asked
      exact List.suffix_cons _ _
  · exact List.suffix_refl _

theorem step_grows (host : Host) (raw : String) (value : Value) (key : String) (journal : Journal) :
    journal <:+ (host.step raw value key journal).2 := by
  have asked := host.memberOf_grows value key journal
  unfold step
  rcases found : host.memberOf value key journal with ⟨_ | member, later⟩
  · rwa [found] at asked
  · rw [found] at asked
    exact asked.trans (host.evaluate_grows raw member later)

theorem search_grows (host : Host) (raw key : String) (frames : List Value) (journal : Journal) :
    journal <:+ (host.search raw key frames journal).2 := by
  induction frames generalizing journal with
  | nil => exact List.suffix_refl _
  | cons frame outer ih =>
    have asked := host.step_grows raw frame key journal
    unfold search
    rcases found : host.step raw frame key journal with ⟨_ | member, later⟩
    · rw [found] at asked
      exact asked.trans (ih later)
    · rwa [found] at asked

theorem descend_grows (host : Host) (raw : String) (found : Found) (scope : List Value)
    (keys : List String) (journal : Journal) :
    journal <:+ (host.descend raw found scope keys journal).2 := by
  induction keys generalizing found scope journal with
  | nil => exact List.suffix_refl _
  | cons key keys ih =>
    have asked := host.step_grows raw found.value key journal
    unfold descend
    rcases member : host.step raw found.value key journal with ⟨_ | next, later⟩
    · rwa [member] at asked
    · rw [member] at asked
      exact asked.trans (ih next _ later)

theorem resolve_grows (host : Host) (frames : Frames) (path raw : String) (journal : Journal) :
    journal <:+ (host.resolve frames path raw journal).2 := by
  unfold resolve
  split
  · have asked := host.evaluate_grows raw frames.current journal
    rcases found : host.evaluate raw frames.current journal with ⟨_ | value, later⟩ <;>
      rwa [found] at asked
  · split
    · exact List.suffix_refl _
    · rename_i key keys _
      have asked := host.search_grows raw key frames.toList journal
      rcases found : host.search raw key frames.toList journal with ⟨_ | value, later⟩
      · rwa [found] at asked
      · rw [found] at asked
        exact asked.trans (host.descend_grows raw value [] keys later)

inductive Answers (host : Host) (raw text : String) (journal : Journal) : Journal → Prop where
  | call {earlier : Journal} (lambda : Lambda) (grown : journal <:+ earlier) (full : lambda.isVoid = false)
      (answer : host.answer lambda (earlier.callsOf lambda) raw = .text text) :
      Answers host raw text journal (.called lambda raw :: earlier)

theorem Answers.from (answers : Answers host raw text middle after) (grown : journal <:+ middle) :
    Answers host raw text journal after := by
  cases answers with
  | call lambda later full answer => exact .call lambda (grown.trans later) full answer

def Found.Fresh (host : Host) (raw : String) (journal after : Journal) (found : Found) : Prop :=
  ∀ text, found.fromLambda = true → found.value = .text text → Answers host raw text journal after

theorem evaluate_fresh (asked : host.evaluate raw value journal = (some found, after)) :
    Found.Fresh host raw journal after found := by
  intro text fromLambda same
  unfold evaluate at asked
  split at asked
  · rename_i lambda
    unfold call at asked
    cases void : lambda.isVoid with
    | true => simp [void] at asked
    | false =>
      simp only [void, Bool.false_eq_true, if_false, Prod.mk.injEq, Option.some.injEq] at asked
      obtain ⟨rfl, rfl⟩ := asked
      exact .call lambda (List.suffix_refl _) void same
  · simp only [Prod.mk.injEq, Option.some.injEq] at asked
    obtain ⟨rfl, rfl⟩ := asked
    cases fromLambda

theorem step_fresh (asked : host.step raw value key journal = (some found, after)) :
    Found.Fresh host raw journal after found := by
  have grown := host.memberOf_grows value key journal
  unfold step at asked
  rcases met : host.memberOf value key journal with ⟨_ | member, later⟩
  · rw [met] at asked
    cases asked
  · rw [met] at asked grown
    exact fun text fromLambda same => (evaluate_fresh asked text fromLambda same).from grown

theorem search_fresh (asked : host.search raw key frames journal = (some found, after)) :
    Found.Fresh host raw journal after found := by
  induction frames generalizing journal with
  | nil => cases asked
  | cons frame outer ih =>
    have grown := host.step_grows raw frame key journal
    unfold search at asked
    rcases met : host.step raw frame key journal with ⟨_ | member, later⟩
    · rw [met] at asked grown
      exact fun text fromLambda same => (ih asked text fromLambda same).from grown
    · rw [met] at asked
      cases asked
      exact step_fresh met

theorem toResolved_template {found : Found} (same : found.toResolved path = .template text scope) :
    found.fromLambda = true ∧ found.value = .text text := by
  unfold Found.toResolved at same
  split at same
  · rename_i own shown
    split at same
    · rename_i fromLambda
      cases same
      exact ⟨fromLambda, shown⟩
    · cases same
  · cases same

theorem descend_fresh (fresh : Found.Fresh host raw journal middle found)
    (grown : journal <:+ middle)
    (asked : host.descend raw found path keys middle = (some (.template text scope), after)) :
    Answers host raw text journal after := by
  induction keys generalizing found path middle with
  | nil =>
    unfold descend at asked
    simp only [Prod.mk.injEq, Option.some.injEq] at asked
    obtain ⟨same, rfl⟩ := asked
    obtain ⟨fromLambda, shown⟩ := toResolved_template same
    exact fresh text fromLambda shown
  | cons key keys ih =>
    have further := host.step_grows raw found.value key middle
    unfold descend at asked
    rcases met : host.step raw found.value key middle with ⟨_ | next, later⟩
    · rw [met] at asked
      cases asked
    · rw [met] at asked further
      refine ih (fun text fromLambda same => ?_) (grown.trans further) asked
      exact (step_fresh met text fromLambda same).from grown

-- A lookup that leads to a template ends with the call that answered with its text.
theorem resolve_template
    (asked : host.resolve frames path raw journal = (some (.template text scope), after)) :
    Answers host raw text journal after := by
  unfold resolve at asked
  split at asked
  · rcases met : host.evaluate raw frames.current journal with ⟨_ | found, later⟩
    · rw [met] at asked
      cases asked
    · rw [met] at asked
      simp only [Prod.mk.injEq, Option.some.injEq] at asked
      obtain ⟨same, rfl⟩ := asked
      obtain ⟨fromLambda, shown⟩ := toResolved_template same
      exact evaluate_fresh met text fromLambda shown
  · split at asked
    · cases asked
    · rename_i key keys _
      have grown := host.search_grows raw key frames.toList journal
      rcases met : host.search raw key frames.toList journal with ⟨_ | found, later⟩
      · rw [met] at asked
        cases asked
      · rw [met] at asked grown
        exact descend_fresh (search_fresh met) grown asked

end Host
end Mustache
