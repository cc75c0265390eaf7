import Mathlib.Data.List.Forall2
import Mathlib.Data.Option.Defs
import Mustache.Proofs.Member

namespace Mustache

namespace Journal
variable {one other : Journal}

-- The lambdas that answer were called with the same texts, in the same order. Calls of void lambdas
-- may be missing.
def Alike (one other : Journal) : Prop :=
  ∀ lambda, lambda.isVoid = false → one.callsOf lambda = other.callsOf lambda

theorem Alike.refl (journal : Journal) : Alike journal journal := fun _ _ => rfl

theorem Alike.trace (alike : Alike one other) (value value' : Value) (key key' : String) :
    Alike (Host.trace value key ++ one) (Host.trace value' key' ++ other) := by
  intro lambda full
  rw [Host.callsOf_trace, Host.callsOf_trace, alike lambda full]

theorem Alike.call (alike : Alike one other) (lambda : Lambda) (raw : String) :
    Alike (.called lambda raw :: one) (.called lambda raw :: other) := by
  intro own full
  have same := alike own full
  unfold callsOf at same ⊢
  rw [List.filterMap_cons, List.filterMap_cons, same]

theorem Alike.drop (alike : Alike one other) (void : lambda.isVoid = true) (raw : String) :
    Alike (.called lambda raw :: one) other := by
  intro own full
  have different : lambda ≠ own := by
    intro same
    rw [same, full] at void
    cases void
  rw [← alike own full, callsOf, List.filterMap_cons_none]
  · rfl
  · exact if_neg different

end Journal

def answering (lambdas : List Lambda) : List Lambda := lambdas.filter (!·.isVoid)

inductive Kept (Like : Value → Value → Prop) : Option Value → Option Value → Prop where
  | missing : Kept Like none none
  | dropped (void : lambda.isVoid = true) : Kept Like (some (.lambda lambda)) none
  | kept (like : Like member other) : Kept Like (some member) (some other)

namespace Kept
variable {Like : Value → Value → Prop}

theorem same (refl : ∀ value, Like value value) (found : Option Value) : Kept Like found found := by
  cases found with
  | none => exact .missing
  | some member => exact .kept (refl member)

theorem void {member : Value} (void : member.isVoid = true) : Kept Like (some member) none := by
  cases member with
  | lambda own => exact .dropped void
  | _ => cases void

end Kept

-- A relation that lookups in two hosts cannot tell from equality, but for void lambdas.
structure Host.Likeness (host other : Host) (Like : Value → Value → Prop) : Prop where
  refl : ∀ value, Like value value
  answer : other.answer = host.answer
  held : ∀ one two key, Like one two → Kept Like (host.held one key) (other.held two key)
  lambda : ∀ one two own, Like one two → (one = .lambda own ↔ two = .lambda own)
  text : ∀ one two run, Like one two → (one = .text run ↔ two = .text run)

structure Found.Alike (Like : Value → Value → Prop) (one two : Found) : Prop where
  value : Like one.value two.value
  fromLambda : two.fromLambda = one.fromLambda

inductive Resolved.Alike (Like : Value → Value → Prop) : Resolved → Resolved → Prop where
  | value (like : Like one two) : Alike Like (.value one) (.value two)
  | template (scopes : List.Forall₂ Like scope scope') :
      Alike Like (.template text scope) (.template text scope')

theorem Found.toResolved_plain {found : Found} (plain : ∀ run, found.value ≠ .text run)
    (scope : List Value) : found.toResolved scope = .value found.value := by
  obtain ⟨value, fromLambda⟩ := found
  cases value with
  | text run => exact absurd rfl (plain run)
  | _ => rfl

namespace Host.Likeness
variable {host other : Host} {Like : Value → Value → Prop}
  {journal journal' : Journal}

theorem resolved (alike : host.Likeness other Like) (found : Found.Alike Like one two)
    (scopes : List.Forall₂ Like scope scope') :
    Resolved.Alike Like (one.toResolved scope) (two.toResolved scope') := by
  obtain ⟨value, fromLambda⟩ := one
  obtain ⟨value', fromLambda'⟩ := two
  obtain ⟨like, same⟩ := found
  dsimp only at like same
  subst same
  by_cases shown : ∃ run, value = .text run
  · obtain ⟨run, rfl⟩ := shown
    cases (alike.text _ _ run like).mp rfl
    cases fromLambda' with
    | true => exact .template scopes
    | false => exact .value like
  · have plain (run : String) : value ≠ .text run := fun same => shown ⟨run, same⟩
    have plain' (run : String) : value' ≠ .text run :=
      fun same => plain run ((alike.text _ _ run like).mpr same)
    rw [Found.toResolved_plain plain, Found.toResolved_plain plain']
    exact .value like

theorem step (alike : host.Likeness other Like) (like : Like one two)
    (agree : Journal.Alike journal journal') (raw : String) :
    Option.Rel (Found.Alike Like) (host.step raw one key journal).1
      (other.step raw two key journal').1 ∧
    Journal.Alike (host.step raw one key journal).2 (other.step raw two key journal').2 ∧
    answering (other.lambdaUnder? key two).toList = answering (host.lambdaUnder? key one).toList := by
  have kept := alike.held one two key like
  rcases first : host.held one key with _ | member <;>
    rcases second : other.held two key with _ | member' <;> rw [first, second] at kept
  · rw [step_missing first, step_missing second, lambdaUnder_missing first, lambdaUnder_missing second]
    exact ⟨.none, agree.trace _ _ _ _, rfl⟩
  · cases kept
  · cases kept with
    | @dropped lambda void =>
      rw [step_void first void, step_missing second, lambdaUnder_eq_some_iff.mpr first,
        lambdaUnder_missing second]
      refine ⟨.none, (agree.trace _ _ _ _).drop void raw, ?_⟩
      simp [answering, void]
  · cases kept with
    | kept like =>
      by_cases callable : ∃ lambda, member = .lambda lambda
      · obtain ⟨lambda, rfl⟩ := callable
        cases (alike.lambda _ _ lambda like).mp rfl
        rw [lambdaUnder_eq_some_iff.mpr first, lambdaUnder_eq_some_iff.mpr second]
        have after := (agree.trace one two key key).call lambda raw
        cases void : lambda.isVoid with
        | true =>
          rw [step_void first void, step_void second void]
          exact ⟨.none, after, rfl⟩
        | false =>
          rw [step_answer first void, step_answer second void, alike.answer, agree lambda void]
          exact ⟨.some ⟨alike.refl _, rfl⟩, after, rfl⟩
      · have plain (lambda : Lambda) : member ≠ .lambda lambda := fun same => callable ⟨lambda, same⟩
        have plain' (lambda : Lambda) : member' ≠ .lambda lambda :=
          fun same => plain lambda ((alike.lambda _ _ lambda like).mpr same)
        rw [step_plain first plain, step_plain second plain', lambdaUnder_plain first plain,
          lambdaUnder_plain second plain']
        exact ⟨.some ⟨like, rfl⟩, agree.trace _ _ _ _, rfl⟩

theorem descend (alike : host.Likeness other Like) (found : Found.Alike Like one two)
    (scopes : List.Forall₂ Like scope scope') (agree : Journal.Alike journal journal') :
    Option.Rel (Resolved.Alike Like) (host.descend raw one scope keys journal).1
      (other.descend raw two scope' keys journal').1 ∧
    answering (other.descentLambdas raw two.value keys journal') =
      answering (host.descentLambdas raw one.value keys journal) := by
  induction keys generalizing one two scope scope' journal journal' with
  | nil => exact ⟨.some (alike.resolved found (List.rel_reverse scopes)), rfl⟩
  | cons key keys ih =>
    obtain ⟨related, agree', same⟩ := alike.step found.value agree raw
    rw [Host.descend, Host.descend, descentLambdas, descentLambdas, answering, answering,
      List.filter_append, List.filter_append]
    rcases met : host.step raw one.value key journal with ⟨_ | next, later⟩ <;>
      rcases met' : other.step raw two.value key journal' with ⟨_ | next', later'⟩ <;>
      rw [met, met'] at related agree'
    · exact ⟨.none, congrArg₂ _ same rfl⟩
    · cases related
    · cases related
    · cases related with
      | some next =>
        obtain ⟨results, lambdas⟩ := ih next (.cons found.value scopes) agree'
        exact ⟨results, congrArg₂ _ same lambdas⟩

theorem lookFor (alike : host.Likeness other Like) (like : List.Forall₂ Like frames frames')
    (agree : Journal.Alike journal journal') (raw key : String) (keys : List String) :
    Option.Rel (Resolved.Alike Like) (host.lookFor raw key keys frames journal).1
      (other.lookFor raw key keys frames' journal').1 ∧
    answering (other.searchLambdas raw key keys frames' journal') =
      answering (host.searchLambdas raw key keys frames journal) := by
  induction like generalizing journal journal' with
  | nil => exact ⟨.none, rfl⟩
  | @cons frame frame' outer outer' like _ ih =>
    obtain ⟨related, agree', same⟩ := alike.step like agree raw
    rw [Host.lookFor, Host.lookFor, searchLambdas, searchLambdas, answering, answering,
      List.filter_append, List.filter_append]
    rcases met : host.step raw frame key journal with ⟨_ | next, later⟩ <;>
      rcases met' : other.step raw frame' key journal' with ⟨_ | next', later'⟩ <;>
      rw [met, met'] at related agree'
    · obtain ⟨results, lambdas⟩ := ih agree'
      exact ⟨results, congrArg₂ _ same lambdas⟩
    · cases related
    · cases related
    · cases related with
      | some found =>
        obtain ⟨results, lambdas⟩ := alike.descend found .nil agree'
        exact ⟨results, congrArg₂ _ same lambdas⟩

end Host.Likeness
end Mustache
