import Mustache.Entries
import Mustache.Number.Basic

namespace Mustache

-- A function of the host, which is called with the source of the section that names it. A void one
-- answers with nothing, whatever it is called with. That belongs to what a lambda is, so that none is
-- void in one place and not in another.
structure Lambda where
  id : Nat
  isVoid : Bool
deriving DecidableEq, Repr

structure Record where
  id : Nat
  text : String
deriving DecidableEq, Repr

-- What a template is rendered with. The entries of a map are sorted by key.
inductive Value where
  | null
  | bool (value : Bool)
  | number (value : Number)
  | text (value : String)
  | list (items : List Value)
  | map (entries : List (String × Value))
  | record (record : Record)
  | lambda (lambda : Lambda)
deriving Inhabited

namespace Value

def isNull : Value → Bool
  | .null => true
  | _ => false

def ofPairs (pairs : List (String × Value)) : Value := .map (Entries.ofPairs pairs)

def put (value : Value) (key : String) (member : Value) : Value :=
  match value with
  | .map entries => .map (Entries.insert key member entries)
  | _ => .map [(key, member)]

def ofFloat : Option Binary → Value
  | some value => .number (.float value)
  | none => .null

mutual
def equal : Value → Value → Bool
  | .null, .null => true
  | .bool a, .bool b => a = b
  | .number a, .number b => a.equal b
  | .text a, .text b => a = b
  | .list as, .list bs => equalItems as bs
  | .map as, .map bs => equalEntries as bs
  | .record a, .record b => a.id = b.id
  | .lambda a, .lambda b => a = b
  | _, _ => false
def equalItems : List Value → List Value → Bool
  | [], [] => true
  | a :: as, b :: bs => equal a b && equalItems as bs
  | _, _ => false
def equalEntries : List (String × Value) → List (String × Value) → Bool
  | [], [] => true
  | (key, a) :: as, (key', b) :: bs => key = key' && equal a b && equalEntries as bs
  | _, _ => false
end

end Value
end Mustache
