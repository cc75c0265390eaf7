import Mustache.Host.Script
import Mustache.Proofs.Likeness

namespace Mustache

namespace Journal

theorem callsOf_eq_calls (journal : Journal) (lambda : Lambda) :
    journal.callsOf lambda = journal.calls.filterMap fun own =>
      if own.1 = lambda then some own.2 else none := by
  rw [callsOf, calls, List.filterMap_filterMap]
  congr 1
  funext event
  cases event <;> rfl

theorem Alike.of_void (calls : Journal.calls after = called raw passed ++ journal.calls)
    (voids : ∀ lambda ∈ passed, lambda.isVoid = true) : Alike after journal := by
  intro lambda full
  rw [callsOf_eq_calls, callsOf_eq_calls, calls, List.filterMap_append]
  apply List.append_left_eq_self.mpr
  apply List.filterMap_eq_nil_iff.mpr
  intro own member
  obtain ⟨one, known, same⟩ := List.mem_map.mp member
  have void := voids one (List.mem_reverse.mp known)
  subst same
  apply if_neg
  rintro rfl
  rw [full] at void
  cases void

end Journal

theorem Resolved.Alike.eq {one two : Resolved} (alike : Resolved.Alike Eq one two) : one = two := by
  cases alike with
  | value like => rw [like]
  | template scopes =>
    rw [List.forall₂_eq_eq_eq] at scopes
    rw [scopes]

namespace Host
variable {host : Host} {frame : Value} {inner : List Value} {key : String}

def passing (host : Host) (raw key : String) (frames : List Value) (journal : Journal) : Journal :=
  frames.foldl (fun journal frame => (host.step raw frame key journal).2) journal

theorem passing_calls (host : Host) (raw key : String) (frames : List Value) (journal : Journal) :
    (host.passing raw key frames journal).calls =
      called raw (frames.filterMap (host.lambdaUnder? key)) ++ journal.calls := by
  induction frames generalizing journal with
  | nil => rfl
  | cons frame outer ih =>
    have asked := host.step_calls raw frame key journal
    have rest := ih (host.step raw frame key journal).2
    rw [asked, ← List.append_assoc, ← called_append] at rest
    rw [List.filterMap_cons]
    cases under : host.lambdaUnder? key frame <;> rw [under] at rest <;> exact rest

theorem lookFor_pass (missed : ∀ frame ∈ inner, ¬ host.Yields key frame) (raw : String)
    (keys : List String) (outer : List Value) (journal : Journal) :
    host.lookFor raw key keys (inner ++ outer) journal =
        host.lookFor raw key keys outer (host.passing raw key inner journal) ∧
      host.searchLambdas raw key keys (inner ++ outer) journal =
        inner.filterMap (host.lambdaUnder? key) ++
          host.searchLambdas raw key keys outer (host.passing raw key inner journal) := by
  induction inner generalizing journal with
  | nil => exact ⟨rfl, rfl⟩
  | cons frame inner ih =>
    obtain ⟨here, rest⟩ := List.forall_mem_cons.mp missed
    obtain ⟨results, lambdas⟩ := ih rest (host.step raw frame key journal).2
    have nothing := (host.step_none_iff raw frame key journal).mpr here
    rw [List.cons_append, lookFor, searchLambdas, passing, List.foldl_cons, List.filterMap_cons]
    rw [passing] at results lambdas
    rcases met : host.step raw frame key journal with ⟨_ | found, later⟩
    · rw [met] at results lambdas
      refine ⟨results, ?_⟩
      cases host.lambdaUnder? key frame <;> simp [lambdas]
    · rw [met] at nothing
      cases nothing

theorem lookFor_yields (yields : host.Yields key frame) (raw : String) (keys : List String)
    (outer : List Value) (journal : Journal) :
    host.lookFor raw key keys (frame :: outer) journal = host.lookFor raw key keys [frame] journal ∧
      host.searchLambdas raw key keys (frame :: outer) journal =
        host.descentLambdas raw frame (key :: keys) journal := by
  rw [lookFor, lookFor, searchLambdas, descentLambdas]
  rcases met : host.step raw frame key journal with ⟨_ | found, later⟩
  · exact absurd yields ((host.step_none_iff raw frame key journal).mp (by rw [met]))
  · exact ⟨rfl, rfl⟩

theorem eq_likeness (host : Host) : host.Likeness host Eq where
  refl _ := rfl
  answer := rfl
  held := by
    rintro one _ key rfl
    exact .same (fun _ => rfl) _
  lambda := by
    rintro one _ own rfl
    rfl
  text := by
    rintro one _ run rfl
    rfl

theorem isVoid_of_passed (missed : ∀ frame ∈ inner, ¬ host.Yields key frame) :
    ∀ lambda ∈ inner.filterMap (host.lambdaUnder? key), lambda.isVoid = true := by
  intro lambda member
  obtain ⟨frame, known, under⟩ := List.mem_filterMap.mp member
  exact isVoid_of_not_yields (missed frame known) under

theorem lookFor_passing (missed : ∀ frame ∈ inner, ¬ host.Yields key frame) :
    (host.lookFor raw key keys [frame] (host.passing raw key inner journal)).1 =
      (host.lookFor raw key keys [frame] journal).1 := by
  have agree := Journal.Alike.of_void (host.passing_calls raw key inner journal)
    (isVoid_of_passed missed)
  obtain ⟨related, -⟩ := host.eq_likeness.lookFor (List.forall₂_refl [frame]) agree raw key keys
  revert related
  generalize (host.lookFor raw key keys [frame] (host.passing raw key inner journal)).1 = first
  generalize (host.lookFor raw key keys [frame] journal).1 = second
  intro related
  cases related with
  | none => rfl
  | some alike => rw [alike.eq]

-- Only the first segment of a path is looked for in frame after frame. Where no frame yields it there
-- is nothing. Otherwise all comes from the innermost frame that does, as if it were the only one in
-- scope: a null counts, and a later segment that is missing there is missing. The frames before it
-- leave nothing behind but the calls of their void lambdas under this segment, and those further out
-- are not asked. The calls before do not matter for what is found. The lambdas that are called are
-- these void ones and then those on the way down from the frame, in this order, each with the raw text.
theorem resolve_innermost (host : Host) (frames : Frames) {path : String} (other : path ≠ ".")
    (raw : String) (journal : Journal) :
    (host.resolve frames path raw journal).2.calls =
      called raw (host.lookupLambdas frames path raw journal) ++ journal.calls ∧
    ∃ key keys, segments path = key :: keys ∧
      ((∀ frame ∈ frames.toList, ¬ host.Yields key frame) →
        (host.resolve frames path raw journal).1 = none ∧
        host.lookupLambdas frames path raw journal =
          frames.toList.filterMap (host.lambdaUnder? key)) ∧
      ∀ inner frame outer, frames.toList = inner ++ frame :: outer →
        (∀ passed ∈ inner, ¬ host.Yields key passed) → host.Yields key frame →
        (∀ lambda ∈ inner.filterMap (host.lambdaUnder? key), lambda.isVoid = true) ∧
        host.resolve frames path raw journal =
          host.resolve (.ofRoot frame) path raw (host.passing raw key inner journal) ∧
        host.lookupLambdas frames path raw journal = inner.filterMap (host.lambdaUnder? key) ++
          host.descentLambdas raw frame (key :: keys) (host.passing raw key inner journal) ∧
        (host.resolve frames path raw journal).1 =
          (host.resolve (.ofRoot frame) path raw journal).1 := by
  refine ⟨host.resolve_calls frames other raw journal, ?_⟩
  obtain ⟨key, keys, parts⟩ := segments_eq_cons path
  have resolves (frames : Frames) (journal : Journal) :
      host.resolve frames path raw journal = host.lookFor raw key keys frames.toList journal :=
    resolve_eq other parts frames raw journal
  refine ⟨key, keys, parts, fun missed => ?_, fun inner frame outer split missed yields => ?_⟩
  · obtain ⟨results, lambdas⟩ := lookFor_pass missed raw keys [] journal
    rw [List.append_nil] at results lambdas
    rw [resolves, lookupLambdas_eq parts, results, lambdas]
    exact ⟨rfl, List.append_nil _⟩
  · have voids := isVoid_of_passed missed
    obtain ⟨results, lambdas⟩ := lookFor_pass missed raw keys (frame :: outer) journal
    obtain ⟨settled, descends⟩ :=
      lookFor_yields yields raw keys outer (host.passing raw key inner journal)
    rw [settled] at results
    rw [descends] at lambdas
    refine ⟨voids, ?_, ?_, ?_⟩
    · rw [resolves, resolves, split, results]
      rfl
    · rw [lookupLambdas_eq parts, split, lambdas]
    · rw [resolves, resolves, split, results]
      exact lookFor_passing missed

end Host

namespace Shadowing

def host : Host :=
  .ofScripts #[.constant .null, .constant (.map [("c", .null)])]
    #[⟨[("a", .lambda ⟨0, true⟩)], false⟩]

def record : Value := .record ⟨0, "r"⟩

def chosen : Value := .map [("a", .map [("b", .lambda ⟨1, false⟩)])]

def root : Value := .map [("a", .map [("b", .map [("c", .number (.int 1)), ("d", .bool true)])])]

def frames : Frames := ⟨[record, chosen], root⟩

theorem missed : ∀ frame ∈ [record], ¬ host.Yields "a" frame := by
  intro frame member
  cases List.mem_singleton.mp member
  exact (host.step_none_iff "" record "a" []).mp rfl

theorem yields : host.Yields "a" chosen :=
  ⟨_, rfl, rfl⟩

end Shadowing

open Shadowing in
theorem Host.resolve_innermost_shadowing :
    "a.b.d" ≠ "." ∧ (∀ frame ∈ [record], ¬ host.Yields "a" frame) ∧ host.Yields "a" chosen ∧
    host.resolve frames "a.b.c" "x" [] =
      (some (.value .null), [.called ⟨1, false⟩ "x", .called ⟨0, true⟩ "x", .consulted 0 "a"]) ∧
    host.resolve frames "a.b.d" "x" [] =
      host.resolve (.ofRoot chosen) "a.b.d" "x" [.called ⟨0, true⟩ "x", .consulted 0 "a"] ∧
    host.lookupLambdas frames "a.b.d" "x" [] = [⟨0, true⟩, ⟨1, false⟩] ∧
    (host.resolve frames "a.b.d" "x" []).1 = (host.resolve (.ofRoot chosen) "a.b.d" "x" []).1 ∧
    (host.resolve frames "a.b.d" "x" []).1 = none := by
  obtain ⟨-, key, keys, parts, -, settles⟩ :=
    host.resolve_innermost frames (show "a.b.d" ≠ "." by decide) "x" []
  have own : segments "a.b.d" = ["a", "b", "d"] := by decide +kernel
  rw [own] at parts
  cases parts
  obtain ⟨-, same, -, apart⟩ := settles [record] chosen [root] rfl missed yields
  have lambdas : host.lookupLambdas frames "a.b.d" "x" [] = [⟨0, true⟩, ⟨1, false⟩] := by
    decide +kernel
  exact ⟨by decide, missed, yields, by rfl, same, lambdas, apart, by rfl⟩

end Mustache
