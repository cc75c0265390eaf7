import Mustache.Number.Text
import Mustache.Text.Hidden
import Mustache.Value.Basic

namespace Mustache.Value

def describeChar (c : Char) : List Char :=
  match c with
  | '"' => ['\\', '"']
  | '\\' => ['\\', '\\']
  | '\n' => ['\\', 'n']
  | '\r' => ['\\', 'r']
  | '\t' => ['\\', 't']
  | '\x00' => ['\\', '0']
  | _ =>
    if Text.isHidden c then '\\' :: 'u' :: '{' :: (Nat.toDigits 16 c.toNat ++ ['}']) else [c]

def describeText (text : String) : String :=
  String.ofList ('"' :: text.toList.flatMap describeChar ++ ['"'])

mutual
def describe : Value → String
  | .null => "Null"
  | .bool value => if value then "Bool(true)" else "Bool(false)"
  | .number value => "Number(Number(" ++ value.toText ++ "))"
  | .text value => "String(" ++ describeText value ++ ")"
  | .list items => "List([" ++ String.intercalate ", " (describeItems items) ++ "])"
  | .map entries => "Map(\x7b" ++ String.intercalate ", " (describeEntries entries) ++ "\x7d)"
  | .record _ => "Object(..)"
  | .lambda _ => "Lambda(..)"
def describeItems : List Value → List String
  | [] => []
  | item :: rest => describe item :: describeItems rest
def describeEntries : List (String × Value) → List String
  | [] => []
  | (key, value) :: rest => (describeText key ++ ": " ++ describe value) :: describeEntries rest
end

end Mustache.Value
