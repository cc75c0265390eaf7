import Mustache.Value.Basic

namespace Mustache

inductive Event where
  | called (lambda : Lambda) (raw : String)
  | consulted (record : Nat) (key : String)
deriving DecidableEq, Repr

-- The events so far, latest first.
abbrev Journal := List Event

namespace Journal

def rawOf? (lambda : Lambda) : Event → Option String
  | .called own raw => if own = lambda then some raw else none
  | .consulted .. => none

def callsOf (journal : Journal) (lambda : Lambda) : List String :=
  List.filterMap (rawOf? lambda) journal

end Journal

-- The code behind lambdas and records. What a lambda answers may depend on its own earlier calls;
-- what a record has under a name does not change.
structure Host where
  answer : Lambda → List String → String → Value
  member? : Nat → String → Option Value

namespace Host

def empty : Host := ⟨fun _ _ _ => .null, fun _ _ => none⟩

def call (host : Host) (lambda : Lambda) (raw : String) (journal : Journal) :
    Option Value × Journal :=
  (if lambda.isVoid then none else some (host.answer lambda (journal.callsOf lambda) raw),
    .called lambda raw :: journal)

def memberOf (host : Host) (value : Value) (key : String) (journal : Journal) :
    Option Value × Journal :=
  match value with
  | .map entries => (Entries.get? key entries, journal)
  | .record record => (host.member? record.id key, .consulted record.id key :: journal)
  | _ => (none, journal)

end Host
end Mustache
