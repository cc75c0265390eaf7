import Mustache.Context

namespace Mustache

theorem segmentsFrom_eq_cons (word path : List Char) :
    ∃ key keys, segmentsFrom word path = key :: keys := by
  induction path generalizing word with
  | nil => exact ⟨_, _, rfl⟩
  | cons c path ih =>
    rw [segmentsFrom]
    split
    · exact ⟨_, _, rfl⟩
    · exact ih _

theorem segments_eq_cons (path : String) : ∃ key keys, segments path = key :: keys := by
  obtain ⟨key, keys, parts⟩ := segmentsFrom_eq_cons [] path.toList
  exact ⟨_, _, by rw [segments, parts, List.map_cons]⟩

namespace Value

def isVoid : Value → Bool
  | .lambda own => own.isVoid
  | _ => false

def isCompound : Value → Bool
  | .map _ | .record _ => true
  | _ => false

theorem plain_of_compound {value : Value} (compound : value.isCompound = true) :
    ∀ lambda, value ≠ .lambda lambda := by
  rintro lambda rfl
  cases compound

end Value

namespace Journal

def call? : Event → Option (Lambda × String)
  | .called lambda raw => some (lambda, raw)
  | .consulted .. => none

def calls (journal : Journal) : List (Lambda × String) := List.filterMap call? journal

end Journal

def called (raw : String) (lambdas : List Lambda) : List (Lambda × String) :=
  lambdas.reverse.map fun lambda => (lambda, raw)

theorem called_append (raw : String) (earlier later : List Lambda) :
    called raw (earlier ++ later) = called raw later ++ called raw earlier := by
  rw [called, List.reverse_append, List.map_append]
  rfl

namespace Host
variable {host : Host} {value : Value} {key : String}

def held (host : Host) : Value → String → Option Value
  | .map entries, key => Entries.get? key entries
  | .record record, key => host.member? record.id key
  | _, _ => none

def trace : Value → String → Journal
  | .record record, key => [.consulted record.id key]
  | _, _ => []

theorem memberOf_eq (host : Host) (value : Value) (key : String) (journal : Journal) :
    host.memberOf value key journal = (host.held value key, trace value key ++ journal) := by
  cases value <;> rfl

theorem calls_trace (value : Value) (key : String) (journal : Journal) :
    Journal.calls (trace value key ++ journal) = journal.calls := by
  cases value <;> rfl

theorem callsOf_trace (value : Value) (key : String) (journal : Journal) (lambda : Lambda) :
    Journal.callsOf (trace value key ++ journal) lambda = journal.callsOf lambda := by
  cases value <;> rfl

theorem step_missing (missing : host.held value key = none) (raw : String) (journal : Journal) :
    host.step raw value key journal = (none, trace value key ++ journal) := by
  rw [step, memberOf_eq, missing]

theorem step_void (found : host.held value key = some (.lambda lambda))
    (void : lambda.isVoid = true) (raw : String) (journal : Journal) :
    host.step raw value key journal =
      (none, .called lambda raw :: (trace value key ++ journal)) := by
  rw [step, memberOf_eq, found]
  simp only [evaluate, call, void, if_true]

theorem step_answer (found : host.held value key = some (.lambda lambda))
    (full : lambda.isVoid = false) (raw : String) (journal : Journal) :
    host.step raw value key journal =
      (some ⟨host.answer lambda (journal.callsOf lambda) raw, true⟩,
        .called lambda raw :: (trace value key ++ journal)) := by
  rw [step, memberOf_eq, found]
  simp only [evaluate, call, full, Bool.false_eq_true, if_false, callsOf_trace]

theorem step_plain {member : Value} (found : host.held value key = some member)
    (plain : ∀ lambda, member ≠ .lambda lambda) (raw : String) (journal : Journal) :
    host.step raw value key journal = (some ⟨member, false⟩, trace value key ++ journal) := by
  rw [step, memberOf_eq, found]
  cases member with
  | lambda own => exact absurd rfl (plain own)
  | _ => rfl

inductive Stepped (host : Host) (raw : String) (value : Value) (key : String) (journal : Journal) :
    Option Found → Journal → Prop where
  | missing (missing : host.held value key = none) :
      Stepped host raw value key journal none (trace value key ++ journal)
  | void (found : host.held value key = some (.lambda lambda)) (void : lambda.isVoid = true) :
      Stepped host raw value key journal none (.called lambda raw :: (trace value key ++ journal))
  | answer (found : host.held value key = some (.lambda lambda)) (full : lambda.isVoid = false) :
      Stepped host raw value key journal
        (some ⟨host.answer lambda (journal.callsOf lambda) raw, true⟩)
        (.called lambda raw :: (trace value key ++ journal))
  | plain {member : Value} (found : host.held value key = some member)
      (plain : ∀ lambda, member ≠ .lambda lambda) :
      Stepped host raw value key journal (some ⟨member, false⟩) (trace value key ++ journal)

theorem step_stepped (host : Host) (raw : String) (value : Value) (key : String)
    (journal : Journal) : host.Stepped raw value key journal (host.step raw value key journal).1
      (host.step raw value key journal).2 := by
  cases found : host.held value key with
  | none => exact step_missing found raw journal ▸ .missing found
  | some member =>
    cases member with
    | lambda lambda =>
      cases void : lambda.isVoid with
      | true => exact step_void found void raw journal ▸ .void found void
      | false => exact step_answer found void raw journal ▸ .answer found void
    | _ => exact step_plain found (by simp) raw journal ▸ .plain found (by simp)

-- A frame yields a name if it has a member of that name that is no void lambda.
def Yields (host : Host) (key : String) (frame : Value) : Prop :=
  ∃ member, host.held frame key = some member ∧ member.isVoid = false

def lambdaUnder? (host : Host) (key : String) (value : Value) : Option Lambda :=
  match host.held value key with
  | some (.lambda lambda) => some lambda
  | _ => none

theorem lambdaUnder_eq_some_iff :
    host.lambdaUnder? key value = some lambda ↔ host.held value key = some (.lambda lambda) := by
  unfold lambdaUnder?
  split
  · rename_i own found
    rw [found]
    simp
  · rename_i other
    simp only [reduceCtorEq, false_iff]
    exact other lambda

theorem lambdaUnder_missing (missing : host.held value key = none) :
    host.lambdaUnder? key value = none := by
  rw [lambdaUnder?, missing]

theorem lambdaUnder_plain {member : Value} (found : host.held value key = some member)
    (plain : ∀ lambda, member ≠ .lambda lambda) : host.lambdaUnder? key value = none := by
  refine Option.eq_none_iff_forall_ne_some.mpr fun lambda called => ?_
  rw [lambdaUnder_eq_some_iff, found] at called
  exact plain lambda (Option.some.inj called)

theorem isVoid_of_not_yields (missed : ¬ host.Yields key value)
    (called : host.lambdaUnder? key value = some lambda) : lambda.isVoid = true := by
  cases void : lambda.isVoid with
  | true => rfl
  | false => exact absurd ⟨_, lambdaUnder_eq_some_iff.mp called, void⟩ missed

theorem step_calls (host : Host) (raw : String) (value : Value) (key : String) (journal : Journal) :
    (host.step raw value key journal).2.calls =
      called raw (host.lambdaUnder? key value).toList ++ journal.calls := by
  have stepped := host.step_stepped raw value key journal
  generalize host.step raw value key journal = result at stepped ⊢
  obtain ⟨found, after⟩ := result
  cases stepped with
  | missing missing =>
    rw [lambdaUnder_missing missing]
    exact calls_trace value key journal
  | void found _ | answer found _ =>
    rw [lambdaUnder_eq_some_iff.mpr found, ← calls_trace value key journal]
    rfl
  | plain found plain =>
    rw [lambdaUnder_plain found plain]
    exact calls_trace value key journal

theorem step_none_iff (host : Host) (raw : String) (value : Value) (key : String)
    (journal : Journal) :
    (host.step raw value key journal).1 = none ↔ ¬ host.Yields key value := by
  have stepped := host.step_stepped raw value key journal
  generalize host.step raw value key journal = result at stepped ⊢
  obtain ⟨found, after⟩ := result
  cases stepped with
  | missing missing => simp [Yields, missing]
  | void found void => simp [Yields, found, Value.isVoid, void]
  | answer found full => simp [Yields, found, Value.isVoid, full]
  | @plain member found plain =>
    have full : member.isVoid = false := by
      cases member with
      | lambda own => exact absurd rfl (plain own)
      | _ => rfl
    simp [Yields, found, full]

def descentLambdas (host : Host) (raw : String) (value : Value) :
    List String → Journal → List Lambda
  | [], _ => []
  | key :: keys, journal =>
    (host.lambdaUnder? key value).toList ++
      match host.step raw value key journal with
      | (none, _) => []
      | (some found, journal) => descentLambdas host raw found.value keys journal

def searchLambdas (host : Host) (raw key : String) (keys : List String) :
    List Value → Journal → List Lambda
  | [], _ => []
  | frame :: outer, journal =>
    (host.lambdaUnder? key frame).toList ++
      match host.step raw frame key journal with
      | (some found, journal) => host.descentLambdas raw found.value keys journal
      | (none, journal) => searchLambdas host raw key keys outer journal

-- The lambdas that a lookup calls, first to last. The path is not the single dot.
def lookupLambdas (host : Host) (frames : Frames) (path raw : String) (journal : Journal) :
    List Lambda :=
  match segments path with
  | [] => []
  | key :: keys => host.searchLambdas raw key keys frames.toList journal

-- A path is looked for in the frames, innermost first, and from the first that yields its first
-- segment downwards.
def lookFor (host : Host) (raw key : String) (keys : List String) :
    List Value → Journal → Option Resolved × Journal
  | [], journal => (none, journal)
  | frame :: outer, journal =>
    match host.step raw frame key journal with
    | (some found, journal) => host.descend raw found [] keys journal
    | (none, journal) => lookFor host raw key keys outer journal

theorem lookFor_eq (host : Host) (raw key : String) (keys : List String) (frames : List Value)
    (journal : Journal) : host.lookFor raw key keys frames journal =
      match host.search raw key frames journal with
      | (none, journal) => (none, journal)
      | (some found, journal) => host.descend raw found [] keys journal := by
  induction frames generalizing journal with
  | nil => rfl
  | cons frame outer ih =>
    rw [lookFor, search]
    rcases host.step raw frame key journal with ⟨_ | found, later⟩
    · exact ih later
    · rfl

theorem resolve_eq (other : path ≠ ".") (parts : segments path = key :: keys) (frames : Frames)
    (raw : String) (journal : Journal) :
    host.resolve frames path raw journal = host.lookFor raw key keys frames.toList journal := by
  rw [resolve, if_neg other, parts]
  exact (host.lookFor_eq raw key keys frames.toList journal).symm

theorem lookupLambdas_eq (parts : segments path = key :: keys) (frames : Frames) (raw : String)
    (journal : Journal) : host.lookupLambdas frames path raw journal =
      host.searchLambdas raw key keys frames.toList journal := by
  rw [lookupLambdas, parts]

theorem descend_calls (host : Host) (raw : String) (found : Found) (scope : List Value)
    (keys : List String) (journal : Journal) :
    (host.descend raw found scope keys journal).2.calls =
      called raw (host.descentLambdas raw found.value keys journal) ++ journal.calls := by
  induction keys generalizing found scope journal with
  | nil => rfl
  | cons key keys ih =>
    have asked := host.step_calls raw found.value key journal
    rw [descend, descentLambdas, called_append]
    rcases met : host.step raw found.value key journal with ⟨_ | next, later⟩
    · rw [met] at asked
      exact asked
    · rw [met] at asked
      dsimp only at asked ⊢
      rw [ih, asked, List.append_assoc]

theorem lookFor_calls (host : Host) (raw key : String) (keys : List String) (frames : List Value)
    (journal : Journal) : (host.lookFor raw key keys frames journal).2.calls =
      called raw (host.searchLambdas raw key keys frames journal) ++ journal.calls := by
  induction frames generalizing journal with
  | nil => rfl
  | cons frame outer ih =>
    have asked := host.step_calls raw frame key journal
    rw [lookFor, searchLambdas, called_append]
    rcases met : host.step raw frame key journal with ⟨_ | found, later⟩
    · rw [met] at asked
      dsimp only at asked ⊢
      rw [ih, asked, List.append_assoc]
    · rw [met] at asked
      dsimp only at asked ⊢
      rw [descend_calls, asked, List.append_assoc]

theorem resolve_calls (host : Host) (frames : Frames) (other : path ≠ ".") (raw : String)
    (journal : Journal) : (host.resolve frames path raw journal).2.calls =
      called raw (host.lookupLambdas frames path raw journal) ++ journal.calls := by
  cases parts : segments path with
  | nil =>
    rw [resolve, if_neg other, lookupLambdas, parts]
    rfl
  | cons key keys =>
    rw [resolve_eq other parts, lookupLambdas_eq parts]
    exact host.lookFor_calls raw key keys frames.toList journal

end Host
end Mustache
