import Mustache.Host.Basic

namespace Mustache

structure Frames where
  inner : List Value
  root : Value

namespace Frames

def ofRoot (root : Value) : Frames := ⟨[], root⟩

def toList (frames : Frames) : List Value := frames.inner ++ [frames.root]

def current (frames : Frames) : Value := frames.inner.headD frames.root

def push (frames : Frames) (value : Value) : Frames := { frames with inner := value :: frames.inner }

def pop (frames : Frames) : Frames := { frames with inner := frames.inner.tail }

def extend (frames : Frames) (scope : List Value) : Frames :=
  { frames with inner := scope.reverse ++ frames.inner }

end Frames

def segmentsFrom (word : List Char) : List Char → List (List Char)
  | [] => [word.reverse]
  | c :: path =>
    if c = '.' then word.reverse :: segmentsFrom [] path else segmentsFrom (c :: word) path

def segments (path : String) : List String := (segmentsFrom [] path.toList).map String.ofList

-- What a path leads to. Text that comes straight from a lambda is a template, to be read with the
-- values that the path went through as its innermost scope.
inductive Resolved where
  | value (value : Value)
  | template (text : String) (scope : List Value)

structure Found where
  value : Value
  fromLambda : Bool

namespace Found

def toResolved (found : Found) (scope : List Value) : Resolved :=
  match found.value with
  | .text text => if found.fromLambda then .template text scope else .value (.text text)
  | value => .value value

end Found

namespace Host

def evaluate (host : Host) (raw : String) (value : Value) (journal : Journal) :
    Option Found × Journal :=
  match value with
  | .lambda lambda =>
    match host.call lambda raw journal with
    | (none, journal) => (none, journal)
    | (some answer, journal) => (some ⟨answer, true⟩, journal)
  | value => (some ⟨value, false⟩, journal)

def step (host : Host) (raw : String) (value : Value) (key : String) (journal : Journal) :
    Option Found × Journal :=
  match host.memberOf value key journal with
  | (none, journal) => (none, journal)
  | (some member, journal) => host.evaluate raw member journal

def search (host : Host) (raw key : String) : List Value → Journal → Option Found × Journal
  | [], journal => (none, journal)
  | frame :: outer, journal =>
    match host.step raw frame key journal with
    | (some found, journal) => (some found, journal)
    | (none, journal) => search host raw key outer journal

-- Every later segment is a member of what was found before it. `scope` lists the values passed
-- through, latest first.
def descend (host : Host) (raw : String) (found : Found) (scope : List Value) :
    List String → Journal → Option Resolved × Journal
  | [], journal => (some (found.toResolved scope.reverse), journal)
  | key :: keys, journal =>
    match host.step raw found.value key journal with
    | (none, journal) => (none, journal)
    | (some next, journal) => descend host raw next (found.value :: scope) keys journal

def resolve (host : Host) (frames : Frames) (path raw : String) (journal : Journal) :
    Option Resolved × Journal :=
  if path = "." then
    match host.evaluate raw frames.current journal with
    | (none, journal) => (none, journal)
    | (some found, journal) => (some (found.toResolved []), journal)
  else
    match segments path with
    | [] => (none, journal)
    | key :: keys =>
      match host.search raw key frames.toList journal with
      | (none, journal) => (none, journal)
      | (some found, journal) => host.descend raw found [] keys journal

end Host

inductive Passes where
  | skip
  | once
  | each (items : List Value)

namespace Passes

-- Zero, the empty text and the empty map are something.
def of : Value → Passes
  | .null => .skip
  | .bool false => .skip
  | .bool true => .once
  | .list [] => .skip
  | .list items => .each items
  | value => .each [value]

def isSkip : Passes → Bool
  | .skip => true
  | _ => false

end Passes
end Mustache
