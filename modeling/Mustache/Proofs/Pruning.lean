import Mustache.Proofs.Course
import Mustache.Proofs.Innermost

namespace Mustache

namespace Entries
variable {α : Type u}

def erase (key : String) (entries : Entries α) : Entries α := entries.filter (·.1 ≠ key)

theorem get_erase (key found : String) (entries : Entries α) :
    get? found (erase key entries) = if key = found then none else get? found entries := by
  induction entries with
  | nil => simp [erase, get?]
  | cons entry rest ih =>
    obtain ⟨own, value⟩ := entry
    unfold erase at ih ⊢
    by_cases same : own = key
    · subst same
      simp only [ne_eq, not_true_eq_false, decide_false, Bool.false_eq_true, not_false_eq_true,
        List.filter_cons_of_neg, ih, get?]
      split <;> rfl
    · rw [List.filter_cons_of_pos (by simpa using same), get?, get?, ih]
      by_cases here : own = found
      · subst here
        simp [Ne.symm same]
      · simp [here]

end Entries

namespace Value

mutual
-- The entries of maps that are void lambdas are deleted, at every depth of lists and maps. Under their
-- keys nothing is left.
def prune : Value → Value
  | .list items => .list (pruneItems items)
  | .map entries => .map (pruneEntries entries)
  | value => value
def pruneItems : List Value → List Value
  | [] => []
  | item :: rest => prune item :: pruneItems rest
def pruneEntries : List (String × Value) → List (String × Value)
  | [] => []
  | (key, value) :: rest =>
    if value.isVoid then Entries.erase key (pruneEntries rest)
    else (key, prune value) :: pruneEntries rest
end

theorem get_pruneEntries (key : String) (entries : List (String × Value)) :
    Entries.get? key (pruneEntries entries) =
      ((Entries.get? key entries).filter (!·.isVoid)).map prune := by
  induction entries with
  | nil => rfl
  | cons entry rest ih =>
    obtain ⟨own, value⟩ := entry
    rw [pruneEntries, Entries.get?]
    cases void : value.isVoid with
    | true =>
      rw [if_pos rfl, Entries.get_erase, ih]
      split
      · rw [Option.filter_some_neg (by simp [void])]
        rfl
      · rfl
    | false =>
      rw [if_neg (by simp), Entries.get?, ih]
      split
      · rw [Option.filter_some_pos (by simp [void])]
        rfl
      · rfl

theorem pruneEntries_of_distinct {entries : List (String × Value)}
    (distinct : (entries.map Prod.fst).Nodup) : pruneEntries entries =
      (entries.filter (!·.2.isVoid)).map fun entry => (entry.1, entry.2.prune) := by
  induction entries with
  | nil => rfl
  | cons entry rest ih =>
    obtain ⟨key, value⟩ := entry
    obtain ⟨apart, distinct⟩ := List.nodup_cons.mp distinct
    rw [pruneEntries, ih distinct]
    cases void : value.isVoid with
    | false => simp [void]
    | true =>
      rw [if_pos rfl, Entries.erase, List.filter_eq_self.mpr]
      · simp [void]
      · rintro ⟨other, left⟩ member
        obtain ⟨⟨own, kept⟩, known, same⟩ := List.mem_map.mp member
        cases same
        have inside := List.mem_map_of_mem (f := Prod.fst) (List.mem_filter.mp known).1
        have different : own ≠ key := by
          rintro rfl
          exact apart inside
        exact decide_eq_true different

def Pruned (value other : Value) : Prop := other = value ∨ other = value.prune

theorem pruned_items (items : List Value) : List.Forall₂ Pruned items (pruneItems items) := by
  induction items with
  | nil => exact .nil
  | cons item rest ih => exact .cons (Or.inr rfl) ih

end Value

def Frames.prune (frames : Frames) : Frames := ⟨frames.inner.map Value.prune, frames.root.prune⟩

theorem Frames.pruned (frames : Frames) :
    List.Forall₂ Value.Pruned frames.toList frames.prune.toList := by
  have whole : frames.prune.toList = frames.toList.map Value.prune := by simp [toList, prune]
  rw [whole, List.forall₂_map_right_iff]
  exact List.forall₂_same.mpr fun _ _ => Or.inr rfl

-- A host that differs in records only, which may lack members that are void lambdas.
structure Host.Mutes (host other : Host) : Prop where
  answer : other.answer = host.answer
  members : ∀ id key, other.member? id key = host.member? id key ∨
    other.member? id key = none ∧ ∃ member, host.member? id key = some member ∧ member.isVoid = true

theorem Host.Mutes.refl (host : Host) : host.Mutes host := ⟨rfl, fun _ _ => Or.inl rfl⟩

namespace Host
open Value
variable {host muted : Host}

theorem pruned_likeness (mutes : host.Mutes muted) : host.Likeness muted Pruned where
  refl value := Or.inl rfl
  answer := mutes.answer
  held := by
    intro one two key pruned
    have plain (value : Value) : Kept Pruned (host.held value key) (muted.held value key) := by
      cases value with
      | record r =>
        rcases mutes.members r.id key with same | ⟨gone, member, found, void⟩
        · simp only [held, same]
          exact .same (fun _ => Or.inl rfl) _
        · simp only [held, gone, found]
          exact .void void
      | _ => exact .same (fun _ => Or.inl rfl) _
    rcases pruned with rfl | rfl
    · exact plain two
    · cases one with
      | map entries =>
        simp only [held, prune, get_pruneEntries]
        cases Entries.get? key entries with
        | none => exact .missing
        | some member =>
          cases void : member.isVoid with
          | true =>
            rw [Option.filter_some_neg (by simp [void])]
            exact .void void
          | false =>
            rw [Option.filter_some_pos (by simp [void])]
            exact .kept (Or.inr rfl)
      | _ => exact plain _
  lambda := by
    rintro one two own (rfl | rfl)
    · rfl
    · cases one <;> simp [prune]
  text := by
    rintro one two run (rfl | rfl)
    · rfl
    · cases one <;> simp [prune]

end Host

inductive Passes.Alike (Like : Value → Value → Prop) : Passes → Passes → Prop where
  | skip : Alike Like .skip .skip
  | once : Alike Like .once .once
  | each {one other : List Value} (alike : List.Forall₂ Like one other) :
      Alike Like (.each one) (.each other)

theorem Passes.Alike.skip_iff {Like : Value → Value → Prop} {one other : Passes}
    (alike : Alike Like one other) : one = .skip ↔ other = .skip := by
  cases alike <;> simp

theorem Passes.of_pruned {value other : Value} (pruned : value.Pruned other) :
    Passes.Alike Value.Pruned (Passes.of value) (Passes.of other) := by
  have same (value : Value) : Passes.Alike Value.Pruned (Passes.of value) (Passes.of value) := by
    cases Passes.of value with
    | skip => exact .skip
    | once => exact .once
    | each items => exact .each (List.forall₂_same.mpr fun _ _ => Or.inl rfl)
  rcases pruned with rfl | rfl
  · exact same other
  · cases value with
    | list items =>
      cases items with
      | nil => exact .skip
      | cons item rest => exact .each (Value.pruned_items (item :: rest))
    | map entries => exact .each (.cons (Or.inr rfl) .nil)
    | _ => exact same _

theorem Resolved.isNothing_pruned {found other : Option Resolved}
    (alike : Option.Rel (Resolved.Alike Value.Pruned) found other) :
    IsNothing found ↔ IsNothing other := by
  cases alike with
  | none => rfl
  | some alike =>
    cases alike with
    | template scopes => simp [Setting.not_isNothing_template]
    | value like =>
      rw [Setting.isNothing_value, Setting.isNothing_value]
      exact (Passes.of_pruned like).skip_iff

namespace Host
variable {host muted : Host}

theorem resolve_push_of_void (other : path ≠ ".") (parts : segments path = key :: keys)
    (held : host.held frame key = some (.lambda own)) (void : own.isVoid = true) (frames : Frames)
    (raw : String) (journal : Journal) :
    host.resolve (frames.push frame) path raw journal =
      host.resolve frames path raw (.called own raw :: (trace frame key ++ journal)) := by
  rw [resolve_eq other parts, resolve_eq other parts]
  change host.lookFor raw key keys (frame :: frames.toList) journal = _
  rw [lookFor, step_void held void]

theorem value_of_toResolved {found : Found} (reached : found.toResolved scope = .value value) :
    found.value = value := by
  unfold Found.toResolved at reached
  split at reached
  · rename_i run shown
    split at reached
    · cases reached
    · rw [shown]
      exact Resolved.value.inj reached
  · exact Resolved.value.inj reached

theorem descend_none {found : Found} (missed : ¬ host.Yields key value) (after : List String)
    (reached : (host.descend raw found scope before journal).1 = some (.value value)) :
    (host.descend raw found scope (before ++ key :: after) journal).1 = none := by
  induction before generalizing found scope journal with
  | nil =>
    have last := value_of_toResolved (Option.some.inj reached)
    subst last
    have nothing := (host.step_none_iff raw found.value key journal).mpr missed
    rw [List.nil_append, descend]
    rcases met : host.step raw found.value key journal with ⟨_ | next, later⟩
    · rfl
    · rw [met] at nothing
      cases nothing
  | cons first before ih =>
    rw [descend] at reached
    rw [List.cons_append, descend]
    rcases met : host.step raw found.value first journal with ⟨_ | next, later⟩
    · rfl
    · rw [met] at reached
      exact ih reached

theorem lookFor_none (missed : ¬ host.Yields key value) (after : List String)
    (reached : (host.lookFor raw first before frames journal).1 = some (.value value)) :
    (host.lookFor raw first (before ++ key :: after) frames journal).1 = none := by
  induction frames generalizing journal with
  | nil => cases reached
  | cons frame outer ih =>
    rw [lookFor] at reached ⊢
    rcases met : host.step raw frame first journal with ⟨_ | found, later⟩
    · rw [met] at reached
      exact ih reached
    · rw [met] at reached
      exact descend_none missed after reached

theorem not_yields_of_void (held : host.held value key = some (.lambda own))
    (void : own.isVoid = true) : ¬ host.Yields key value := by
  rintro ⟨member, found, full⟩
  rw [held] at found
  cases found
  rw [Value.isVoid, void] at full
  cases full

-- A void lambda is like a key that is not there. If the void lambdas are pruned from the frames, and
-- records lose members that are void lambdas, a path leads to the same as before, but for what is
-- pruned in it: to nothing if it led to nothing, to the same text with the same scope, or to the same
-- value. Sections and inverted sections decide alike, and the lambdas that give answers are called in
-- the same order. In one lookup, the frame in which a first segment is a void lambda counts for
-- nothing, and a later segment that is one leads to nothing.
theorem resolve_pruned (mutes : host.Mutes muted) (frames : Frames) {path : String}
    (other : path ≠ ".") (raw : String) (journal : Journal)
    (looked : host.resolve frames path raw journal = (found, after))
    (pruned : muted.resolve frames.prune path raw journal = (found', after')) :
    Option.Rel (Resolved.Alike Value.Pruned) found found' ∧
    (Resolved.IsNothing found ↔ Resolved.IsNothing found') ∧
    (∀ value value', found = some (.value value) → found' = some (.value value') →
      Passes.Alike Value.Pruned (Passes.of value) (Passes.of value')) ∧
    after.calls = called raw (host.lookupLambdas frames path raw journal) ++ journal.calls ∧
    after'.calls =
      called raw (muted.lookupLambdas frames.prune path raw journal) ++ journal.calls ∧
    answering (muted.lookupLambdas frames.prune path raw journal) =
      answering (host.lookupLambdas frames path raw journal) ∧
    (∀ key keys frame own, segments path = key :: keys →
      host.held frame key = some (.lambda own) → own.isVoid = true →
      host.resolve (frames.push frame) path raw journal =
        host.resolve frames path raw (.called own raw :: (trace frame key ++ journal))) ∧
    ∀ shorter first before key beyond value own, shorter ≠ "." →
      segments shorter = first :: before → segments path = first :: (before ++ key :: beyond) →
      (host.resolve frames shorter raw journal).1 = some (.value value) →
      host.held value key = some (.lambda own) → own.isVoid = true → found = none := by
  have alike : Option.Rel (Resolved.Alike Value.Pruned) found found' ∧
      answering (muted.lookupLambdas frames.prune path raw journal) =
        answering (host.lookupLambdas frames path raw journal) := by
    obtain ⟨key, keys, parts⟩ := segments_eq_cons path
    rw [resolve_eq other parts] at looked pruned
    rw [lookupLambdas_eq parts, lookupLambdas_eq parts]
    have both := (pruned_likeness mutes).lookFor frames.pruned (.refl journal) raw key keys
    rw [looked, pruned] at both
    exact both
  have calls := host.resolve_calls frames other raw journal
  have calls' := muted.resolve_calls frames.prune other raw journal
  rw [looked] at calls
  rw [pruned] at calls'
  refine ⟨alike.1, Resolved.isNothing_pruned alike.1, ?_, calls, calls', alike.2, ?_, ?_⟩
  · rintro value value' rfl rfl
    cases alike.1 with
    | some one =>
      cases one with
      | value like => exact Passes.of_pruned like
  · intro key keys frame own parts held void
    exact resolve_push_of_void other parts held void frames raw journal
  · intro shorter first before key beyond value own other' parts' parts reached held void
    rw [resolve_eq other' parts'] at reached
    have nothing := lookFor_none (not_yields_of_void held void) beyond reached
    rw [← resolve_eq other parts, looked] at nothing
    exact nothing

end Host

namespace Muting

def lambdas : Array LambdaScript := #[.constant .null, .cycle [.text "one", .text "two"]]

def silent : Lambda := ⟨0, true⟩

def cycle : Lambda := ⟨1, false⟩

def host : Host := .ofScripts lambdas #[⟨[("a", .lambda silent)], false⟩]

def muted : Host := .ofScripts lambdas #[⟨[], false⟩]

def person : Value := .map [("b", .lambda cycle), ("c", .lambda silent)]

def frames : Frames :=
  ⟨[.record ⟨0, "r"⟩, .map [("a", .lambda silent)]], .map [("a", person)]⟩

theorem mutes : host.Mutes muted := by
  refine ⟨rfl, fun id key => ?_⟩
  match id with
  | 0 =>
    by_cases same : "a" = key
    · subst same
      exact Or.inr ⟨rfl, _, rfl, rfl⟩
    · exact Or.inl (by simp [host, muted, Host.ofScripts, RecordScript.member?, Entries.get?, same])
  | _ + 1 => exact Or.inl rfl

end Muting

open Muting in
theorem Host.resolve_pruned_muting :
    host.Mutes muted ∧ "a.b" ≠ "." ∧
    host.resolve frames "a.b" "x" [.called cycle "x"] =
      (some (.template "two" [person]),
        [.called cycle "x", .called silent "x", .called silent "x", .consulted 0 "a",
          .called cycle "x"]) ∧
    muted.resolve frames.prune "a.b" "x" [.called cycle "x"] =
      (some (.template "two" [.map [("b", .lambda cycle)]]),
        [.called cycle "x", .consulted 0 "a", .called cycle "x"]) ∧
    answering (muted.lookupLambdas frames.prune "a.b" "x" [.called cycle "x"]) =
      answering (host.lookupLambdas frames "a.b" "x" [.called cycle "x"]) ∧
    (host.resolve frames "a.c" "x" []).1 = none := by
  obtain ⟨-, -, -, -, -, same, -⟩ :=
    resolve_pruned mutes frames (show "a.b" ≠ "." by decide) "x" [.called cycle "x"] rfl rfl
  obtain ⟨-, -, -, -, -, -, -, later⟩ :=
    resolve_pruned (.refl host) frames (show "a.c" ≠ "." by decide) "x" [] rfl rfl
  have nothing := later "a" "a" [] "c" [] person silent (by decide) (by decide +kernel)
    (by decide +kernel) rfl rfl rfl
  exact ⟨mutes, by decide, rfl, rfl, same, nothing⟩

end Mustache
