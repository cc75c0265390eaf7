import Mustache.Number.Text
import Mustache.Refusal
import Mustache.Value.Basic

namespace Mustache

-- Structured data on its way to a value. Floats come in two widths, absent where they are not
-- finite. A variant is named content, and `refused` is data that declines to be converted.
inductive Datum where
  | null
  | bool (value : Bool)
  | int (value : Int)
  | float (value : Option Binary)
  | single (value : Option Binary)
  | text (value : String)
  | list (items : List Datum)
  | map (entries : List (Datum × Datum))
  | present (content : Datum)
  | variant (name : String) (content : Datum)
  | refused (why : String)
deriving Inhabited

inductive DatumError where
  | numberOutOfRange
  | keyNotText
  | keyNotFinite
  | refused (refusal : Refusal)
deriving DecidableEq, Repr

def DatumError.message : DatumError → String
  | .numberOutOfRange => "number out of range"
  | .keyNotText => "key must be a string"
  | .keyNotFinite => "float key must be finite (got NaN or +/-inf)"
  | .refused refusal => refusal.message

namespace Datum

def floatKey (style : FloatStyle) : Option Binary → Except DatumError String
  | some value => .ok (style.write value)
  | none => .error .keyNotFinite

def toKey : Datum → Except DatumError String
  | .text value => .ok value
  | .bool value => .ok (if value then "true" else "false")
  | .int value => .ok (toString value)
  | .float value => floatKey .double value
  | .single value => floatKey .single value
  | .refused why => .error (.refused (.read why))
  | _ => .error .keyNotText

mutual
def toValue : Datum → Except DatumError Value
  | .null => .ok .null
  | .bool value => .ok (.bool value)
  | .int value => if Number.inRange value then .ok (.number (.int value)) else .error .numberOutOfRange
  | .float value => .ok (Value.ofFloat value)
  | .single value => .ok (Value.ofFloat (value.map (Binary.widen .double)))
  | .text value => .ok (.text value)
  | .list items =>
    match toItems items with
    | .error fault => .error fault
    | .ok items => .ok (.list items)
  | .map entries =>
    match toPairs entries with
    | .error fault => .error fault
    | .ok pairs => .ok (Value.ofPairs pairs)
  | .present content => content.toValue
  | .variant name content =>
    match content.toValue with
    | .error fault => .error fault
    | .ok value => .ok (.map [(name, value)])
  | .refused why => .error (.refused (.read why))
def toItems : List Datum → Except DatumError (List Value)
  | [] => .ok []
  | item :: rest =>
    match item.toValue with
    | .error fault => .error fault
    | .ok item =>
      match toItems rest with
      | .error fault => .error fault
      | .ok rest => .ok (item :: rest)
def toPairs : List (Datum × Datum) → Except DatumError (List (String × Value))
  | [] => .ok []
  | (key, value) :: rest =>
    match key.toKey with
    | .error fault => .error fault
    | .ok key =>
      match value.toValue with
      | .error fault => .error fault
      | .ok value =>
        match toPairs rest with
        | .error fault => .error fault
        | .ok rest => .ok ((key, value) :: rest)
end

end Datum
end Mustache
