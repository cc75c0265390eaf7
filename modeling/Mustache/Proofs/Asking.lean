import Mustache.Context

namespace Mustache

namespace Journal

def SameCalls (one other : Journal) : Prop := ∀ lambda, one.callsOf lambda = other.callsOf lambda

theorem SameCalls.refl (journal : Journal) : SameCalls journal journal := fun _ => rfl

theorem SameCalls.append (same : SameCalls one other) (asked : Journal) :
    SameCalls (asked ++ one) (asked ++ other) := by
  intro lambda
  have calls := same lambda
  unfold callsOf at calls ⊢
  rw [List.filterMap_append, List.filterMap_append, calls]

-- From a journal with the same calls the host is asked the same and gives the same answer.
def Settles (past : Journal) (question : Journal → α × Journal) (answer : α) (asked : Journal) :
    Prop :=
  ∀ journal, past.SameCalls journal → question journal = (answer, asked ++ journal)

end Journal

namespace Host
open Journal

theorem call_settles (host : Host) (lambda : Lambda) (raw : String) (past : Journal) :
    ∃ answer asked, Settles past (host.call lambda raw) answer asked := by
  refine ⟨if lambda.isVoid then none else some (host.answer lambda (past.callsOf lambda) raw),
    [.called lambda raw], fun journal same => ?_⟩
  unfold call
  rw [same lambda]
  rfl

theorem memberOf_settles (host : Host) (value : Value) (key : String) (past : Journal) :
    ∃ answer asked, Settles past (host.memberOf value key) answer asked := by
  unfold memberOf
  cases value with
  | map entries => exact ⟨_, [], fun _ _ => rfl⟩
  | record record => exact ⟨_, [.consulted record.id key], fun _ _ => rfl⟩
  | _ => exact ⟨none, [], fun _ _ => rfl⟩

theorem evaluate_settles (host : Host) (raw : String) (value : Value) (past : Journal) :
    ∃ answer asked, Settles past (host.evaluate raw value) answer asked := by
  cases value with
  | lambda lambda =>
    obtain ⟨answer, asked, settles⟩ := host.call_settles lambda raw past
    cases answer with
    | none => exact ⟨none, asked, fun journal same => by simp only [evaluate, settles journal same]⟩
    | some own =>
      exact ⟨some ⟨own, true⟩, asked, fun journal same => by simp only [evaluate, settles journal same]⟩
  | _ => exact ⟨_, [], fun _ _ => rfl⟩

theorem step_settles (host : Host) (raw : String) (value : Value) (key : String) (past : Journal) :
    ∃ answer asked, Settles past (host.step raw value key) answer asked := by
  obtain ⟨met, asked, settles⟩ := host.memberOf_settles value key past
  cases met with
  | none => exact ⟨none, asked, fun journal same => by simp only [step, settles journal same]⟩
  | some member =>
    obtain ⟨answer, more, later⟩ := host.evaluate_settles raw member (asked ++ past)
    refine ⟨answer, more ++ asked, fun journal same => ?_⟩
    simp only [step, settles journal same, later _ (same.append asked), List.append_assoc]

theorem search_settles (host : Host) (raw key : String) (frames : List Value) (past : Journal) :
    ∃ answer asked, Settles past (host.search raw key frames) answer asked := by
  induction frames generalizing past with
  | nil => exact ⟨none, [], fun _ _ => rfl⟩
  | cons frame outer ih =>
    obtain ⟨met, asked, settles⟩ := host.step_settles raw frame key past
    cases met with
    | some found =>
      exact ⟨some found, asked, fun journal same => by simp only [search, settles journal same]⟩
    | none =>
      obtain ⟨answer, more, later⟩ := ih (asked ++ past)
      refine ⟨answer, more ++ asked, fun journal same => ?_⟩
      simp only [search, settles journal same, later _ (same.append asked), List.append_assoc]

theorem descend_settles (host : Host) (raw : String) (found : Found) (scope : List Value)
    (keys : List String) (past : Journal) :
    ∃ answer asked, Settles past (host.descend raw found scope keys) answer asked := by
  induction keys generalizing found scope past with
  | nil => exact ⟨_, [], fun _ _ => rfl⟩
  | cons key keys ih =>
    obtain ⟨met, asked, settles⟩ := host.step_settles raw found.value key past
    cases met with
    | none => exact ⟨none, asked, fun journal same => by simp only [descend, settles journal same]⟩
    | some next =>
      obtain ⟨answer, more, later⟩ := ih next (found.value :: scope) (asked ++ past)
      refine ⟨answer, more ++ asked, fun journal same => ?_⟩
      simp only [descend, settles journal same, later _ (same.append asked), List.append_assoc]

-- Where a path leads, and what is asked on the way, hangs on the values in scope, on the raw text and
-- on the calls so far.
theorem resolve_settles (host : Host) (frames : Frames) (path raw : String) (past : Journal) :
    ∃ answer asked, Settles past (host.resolve frames path raw) answer asked := by
  by_cases dot : path = "."
  · obtain ⟨met, asked, settles⟩ := host.evaluate_settles raw frames.current past
    cases met with
    | none =>
      exact ⟨none, asked, fun journal same => by simp only [resolve, dot, if_true, settles journal same]⟩
    | some found =>
      exact ⟨some (found.toResolved []), asked, fun journal same => by
        simp only [resolve, dot, if_true, settles journal same]⟩
  · cases parts : segments path with
    | nil => exact ⟨none, [], fun journal same => by simp only [resolve, dot, if_false, parts]; rfl⟩
    | cons key keys =>
      obtain ⟨met, asked, settles⟩ := host.search_settles raw key frames.toList past
      cases met with
      | none =>
        exact ⟨none, asked, fun journal same => by
          simp only [resolve, dot, if_false, parts, settles journal same]⟩
      | some found =>
        obtain ⟨answer, more, later⟩ := host.descend_settles raw found [] keys (asked ++ past)
        refine ⟨answer, more ++ asked, fun journal same => ?_⟩
        simp only [resolve, dot, if_false, parts, settles journal same,
          later _ (same.append asked), List.append_assoc]

end Host
end Mustache
