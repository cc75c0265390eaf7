import Mustache.Host.Basic

namespace Mustache

inductive LambdaScript where
  | constant (value : Value)
  | joined (parts : List (Option String))
  | byteCount
  | callCount
  | cycle (values : List Value)
  | ifRaw (expected : String) (same other : Value)

-- Records given by data. Of the members with one name the first counts, and an echoing record
-- answers to any other name with that name.
structure RecordScript where
  members : List (String × Value)
  echoes : Bool

namespace LambdaScript

def answer (script : LambdaScript) (past : List String) (raw : String) : Value :=
  match script with
  | .constant value => value
  | .joined parts => .text (String.join (parts.map (·.getD raw)))
  | .byteCount => .number (.int raw.utf8ByteSize)
  | .callCount => .number (.int (past.length + 1))
  | .cycle values => (values[past.length % values.length]?).getD .null
  | .ifRaw expected same other => if raw = expected then same else other

end LambdaScript

namespace RecordScript

def member? (script : RecordScript) (key : String) : Option Value :=
  match Entries.get? key script.members with
  | some value => some value
  | none => if script.echoes then some (.text key) else none

end RecordScript

-- Scripts, and what is listed beside them, are found by the numbers of their lambdas.
instance : GetElem? (Array α) Lambda α fun list lambda => lambda.id < list.size where
  getElem list lambda _ := list[lambda.id]
  getElem? list lambda := list[lambda.id]?

def Host.ofScripts (lambdas : Array LambdaScript) (records : Array RecordScript) : Host where
  answer lambda past raw :=
    match lambdas[lambda]? with
    | some script => script.answer past raw
    | none => .null
  member? id key :=
    match records[id]? with
    | some script => script.member? key
    | none => none

end Mustache
