import Mustache.Json.Writing
import Mustache.Value.Basic

namespace Mustache.Value

mutual
-- The value that JSON describes. Of the entries with one key the last counts.
def ofJson : Json → Value
  | .null => .null
  | .bool value => .bool value
  | .number value => .number value
  | .string value => .text value
  | .array items => .list (ofItems items)
  | .object entries => ofPairs (ofEntries entries)
def ofItems : List Json → List Value
  | [] => []
  | item :: rest => ofJson item :: ofItems rest
def ofEntries : List (String × Json) → List (String × Value)
  | [] => []
  | (key, value) :: rest => (key, ofJson value) :: ofEntries rest
end

mutual
def toJson : Value → Json
  | .null => .null
  | .bool value => .bool value
  | .number value => .number value
  | .text value => .string value
  | .list items => .array (toItems items)
  | .map entries => .object (toEntries entries)
  | .record r => .string r.text
  | .lambda _ => .null
def toItems : List Value → List Json
  | [] => []
  | item :: rest => toJson item :: toItems rest
def toEntries : List (String × Value) → List (String × Json)
  | [] => []
  | (key, value) :: rest => (key, toJson value) :: toEntries rest
end

def toText : Value → String
  | .null => ""
  | .bool value => if value then "true" else "false"
  | .number value => value.toText
  | .text value => value
  | .list items => (toJson (.list items)).write
  | .map entries => (toJson (.map entries)).write
  | .record r => r.text
  | .lambda _ => ""

end Mustache.Value
